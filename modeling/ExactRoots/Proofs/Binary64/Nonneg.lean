import ExactRoots.Proofs.Binary64.Comparison
import ExactRoots.Proofs.Binary64.Integer

/-!
# Doubles that are not below zero

Sums, halves and square roots of doubles that are zero, above zero or positive infinity
are such doubles again.  No operation on them leads to NaN.  Of the halves of a sum and a
difference with such a double at most one is below zero.
-/

namespace ExactRoots.Binary64

open Float.Model

variable {x y : Float} {p q : Rat}

/-- Whether a double is positive infinity. -/
def Unbounded (x : Float) : Prop := x.toModel.unpack = .infinity .positive

/-- Whether a double is zero, above zero or positive infinity. -/
def Nonneg (x : Float) : Prop := (∃ p, 0 ≤ p ∧ toRat? x = some p) ∨ Unbounded x

theorem toRat?_half : toRat? 0.5 = some (1 / 2) := by
  have form : dyadic? 0.5 = some ⟨false, 2 ^ 52, -53⟩ := by decide
  rw [toRat?, form, Option.map_some, Dyadic.toRat_eq]
  norm_num

theorem toRat?_one : toRat? 1.0 = some 1 := by decide

theorem toRat?_two : toRat? 2.0 = some 2 := by decide

/-! ## Infinity -/

theorem unbounded_of_packed (packed : x.toModel = .pack (.infinity .positive)) : Unbounded x := by
  rw [Unbounded, packed]
  rfl

theorem Unbounded.place? (unbounded : Unbounded x) :
    place? x = some (.ofPosition infinityPattern) := by
  rw [Binary64.place?, unbounded]
  rfl

theorem unbounded_of_place? (place : Binary64.place? x = some (.ofPosition infinityPattern)) :
    Unbounded x := by
  have top : Place.ofPosition infinityPattern = .of 2 0 0 := rfl
  rw [top, Binary64.place?] at place
  rcases unpacked : x.toModel.unpack with (_ | _) | _ | _ | ⟨_ | _, m, e, positive⟩ <;>
    rw [unpacked] at place
  case infinity.positive => exact unpacked
  case notANumber => contradiction
  all_goals
    have ranks := congrArg (fun a : Place => (ofLex a).1) (Option.some.inj place)
    simp [Place.of] at ranks

/-- What is not below zero in place is not below zero. -/
theorem nonneg_of_place? {n : Int} (place : Binary64.place? x = some (.ofPosition n))
    (nonneg : 0 ≤ n) (bound : n ≤ infinityPattern) : Nonneg x := by
  rcases bound.eq_or_lt with rfl | less
  · exact .inr (unbounded_of_place? place)
  · refine .inl ⟨valueAt n, ?_, toRat?_of_place? place (by omega)⟩
    rw [← valueAt_zero]
    exact valueAt_strictMono.monotone nonneg

theorem nonneg_ofPattern {pattern : Nat} (bound : pattern ≤ infinityPattern) :
    Nonneg (ofPattern false pattern) := by
  have place := place?_ofPattern false bound
  rw [if_neg Bool.false_ne_true] at place
  exact nonneg_of_place? place (Int.natCast_nonneg _) (Int.ofNat_le.mpr bound)

theorem nonneg_of_position (place : Binary64.place? x = some (.ofPosition (position p)))
    (nonneg : 0 ≤ p) : Nonneg x :=
  nonneg_of_place? place (position_nonneg nonneg) (position_mem p).2

section Infinite

variable (unbounded : Unbounded y)

include unbounded

theorem unbounded_add (value : toRat? x = some p) : Unbounded (x + y) := by
  apply unbounded_of_packed
  rw [unpack_add, unbounded]
  have form := unpacks_of_toRat? value
  rcases unpacked : x.toModel.unpack with _ | _ | _ | _ <;> rw [unpacked] at form <;>
    cases form <;> rfl

theorem add_unbounded (value : toRat? x = some p) : Unbounded (y + x) := by
  apply unbounded_of_packed
  rw [unpack_add, unbounded]
  have form := unpacks_of_toRat? value
  rcases unpacked : x.toModel.unpack with _ | _ | _ | _ <;> rw [unpacked] at form <;>
    cases form <;> rfl

theorem unbounded_sub (value : toRat? x = some p) : Unbounded (y - x) := by
  rw [sub_eq_add]
  exact add_unbounded unbounded (toRat?_neg value)

theorem unbounded_half : Unbounded (y / 2.0) := by
  have two : (2.0 : Float).toModel.unpack = .finite .positive (2 ^ 52) (-51) (by decide) := rfl
  have packed : (y / 2.0).toModel = .pack (UnpackedFloat.div Format.binary64 y.toModel.unpack
    (2.0 : Float).toModel.unpack) := rfl
  apply unbounded_of_packed
  rw [packed, unbounded, two]
  rfl

theorem unbounded_sqrt : Unbounded y.sqrt := by
  have packed : y.sqrt.toModel =
      .pack (UnpackedFloat.sqrt Format.binary64 y.toModel.unpack) := rfl
  apply unbounded_of_packed
  rw [packed, unbounded]
  rfl

end Infinite

/-! ## Doubles that are not below zero -/

namespace Nonneg

/-- Such a double is where its position says. -/
theorem exists_place? (nonneg : Nonneg x) :
    ∃ n : Int, 0 ≤ n ∧ Binary64.place? x = some (.ofPosition n) ∧ n ≤ infinityPattern := by
  rcases nonneg with ⟨p, nonneg, value⟩ | unbounded
  · exact ⟨_, position_nonneg nonneg, place?_of_toRat? value, (position_mem p).2⟩
  · exact ⟨_, Int.natCast_nonneg _, unbounded.place?, le_rfl⟩

theorem not_lt_zero (nonneg : Nonneg x) : ¬ x < 0.0 := by
  rcases nonneg.exists_place? with ⟨n, above, place, bound⟩
  have zero : Binary64.place? 0.0 = some (.ofPosition 0) := place?_zero
  rw [lt_iff_places, place, zero]
  rintro ⟨a, b, first, second, less⟩
  cases first
  cases second
  rw [Place.ofPosition_strictMonoOn.lt_iff_lt (Set.mem_Icc.mpr (by omega))
    (Set.mem_Icc.mpr (by omega))] at less
  omega

theorem add (left : Nonneg x) (right : Nonneg y) : Nonneg (x + y) := by
  rcases right with ⟨q, rightNonneg, rightValue⟩ | unbounded
  · rcases left with ⟨p, leftNonneg, leftValue⟩ | unbounded
    · exact nonneg_of_position (place?_add leftValue rightValue) (add_nonneg leftNonneg rightNonneg)
    · exact .inr (add_unbounded unbounded rightValue)
  · rcases left with ⟨p, -, leftValue⟩ | unbounded'
    · exact .inr (unbounded_add unbounded leftValue)
    · refine .inr (unbounded_of_packed ?_)
      rw [unpack_add, unbounded, unbounded']
      rfl

theorem half (nonneg : Nonneg x) : Nonneg (x / 2.0) := by
  rcases nonneg with ⟨p, nonneg, value⟩ | unbounded
  · exact nonneg_of_position (place?_div value toRat?_two two_ne_zero) (div_nonneg nonneg two_pos.le)
  · exact .inr (unbounded_half unbounded)

theorem sqrt (nonneg : Nonneg x) : Nonneg x.sqrt := by
  rcases nonneg with ⟨p, nonneg, value⟩ | unbounded
  · rcases place?_sqrt value nonneg with ⟨n, place, between⟩
    have zero : position 0 = 0 := rfl
    have lower := (between 0 le_rfl).1 (by simpa using nonneg)
    have upper := (between (p + 1) (by linarith)).2 (by nlinarith)
    exact nonneg_of_place? place (zero ▸ lower) (upper.trans (position_mem _).2)
  · exact .inr (unbounded_sqrt unbounded)

end Nonneg

/-- The square of a finite double is not below zero. -/
theorem nonneg_mul_self (value : toRat? x = some p) : Nonneg (x * x) :=
  nonneg_of_position (place?_mul value value) (mul_self_nonneg p)

/-! ## Signs -/

/-- Whether a double is above zero or positive infinity. -/
def Above (x : Float) : Prop := (∃ p, 0 < p ∧ toRat? x = some p) ∨ Unbounded x

/-- Whether a double denotes a number below zero. -/
def Below (x : Float) : Prop := ∃ p, p < 0 ∧ toRat? x = some p

theorem Above.nonneg (above : Above x) : Nonneg x := by
  rcases above with ⟨p, positive, value⟩ | unbounded
  · exact .inl ⟨p, positive.le, value⟩
  · exact .inr unbounded

theorem Above.sqrt (above : Above x) : Above x.sqrt := by
  rcases above with ⟨p, positive, value⟩ | unbounded
  · rcases sqrt_spec value positive with ⟨n, large, -, -, root, -⟩
    refine .inl ⟨_, ?_, root⟩
    rw [← patternValue_zero]
    exact patternValue_strictMono (by omega)
  · exact .inr (unbounded_sqrt unbounded)

theorem Above.beq_zero_eq_false (above : Above x) : (x == 0.0) = false := by
  rw [Bool.eq_false_iff]
  intro zero
  rcases above with ⟨p, positive, value⟩ | unbounded
  · rw [toRat?_of_beq_zero zero] at value
    cases value
    exact lt_irrefl _ positive
  · rw [beq_zero_iff, unbounded.place?] at zero
    exact absurd zero (by decide)

theorem Below.lt_zero (below : Below x) : x < 0.0 := by
  rcases below with ⟨p, negative, value⟩
  exact (lt_iff_of_toRat? value toRat?_zero).mpr negative

/-- The opposite of a double below zero is above it. -/
theorem Below.neg (below : Below x) : Above (-x) := by
  rcases below with ⟨p, negative, value⟩
  exact .inl ⟨-p, neg_pos.mpr negative, toRat?_neg value⟩

/-- What is above zero in place is above zero. -/
theorem above_of_position (place : Binary64.place? x = some (.ofPosition (position p)))
    (positive : 0 < position p) : Above x := by
  have bounds := position_mem p
  rw [Set.mem_Icc] at bounds
  rcases bounds.2.eq_or_lt with top | finite
  · exact .inr (unbounded_of_place? (top ▸ place))
  · refine .inl ⟨_, ?_, toRat?_of_place? place (by omega)⟩
    rw [← valueAt_zero]
    exact valueAt_strictMono positive

/-- What is below zero, and finite, in place is below zero. -/
theorem below_of_position (place : Binary64.place? x = some (.ofPosition (position p)))
    (negative : position p < 0) (small : |p| < overflowThreshold) : Below x := by
  refine ⟨_, ?_, toRat?_of_place? place (natAbs_position_lt_iff.mpr small)⟩
  rw [← valueAt_zero]
  exact valueAt_strictMono negative

theorem valueAt_position_of_toRat? (value : toRat? x = some p) : valueAt (position p) = p := by
  rcases exists_position_of_toRat? value with ⟨small, same⟩
  rw [toRat?_ofRat small] at same
  exact Option.some.inj same

/-! ## Halves of a sum and a difference -/

/-- Half of a sum with a number that is not below zero is below zero only if the first number is
further below it, and then half of the difference is above zero. -/
theorem half_cases {s d : Float} (value : toRat? x = some p) (nonneg : 0 ≤ q)
    (sum : Binary64.place? s = some (.ofPosition (position (p + q))))
    (difference : Binary64.place? d = some (.ofPosition (position (q - p)))) :
    Nonneg (s / 2.0) ∨ Below (s / 2.0) ∧ Above (d / 2.0) := by
  rcases le_or_gt 0 (p + q) with above | below
  · exact .inl (nonneg_of_position sum above).half
  -- the sum is between the first number and zero, so it is finite
  have small : |p + q| < overflowThreshold := by
    refine lt_of_le_of_lt ?_ (exists_position_of_toRat? value).1
    rw [abs_of_neg below, abs_of_neg (by linarith)]
    linarith
  have sumValue := toRat?_of_place? sum (natAbs_position_lt_iff.mpr small)
  have half := place?_div sumValue toRat?_two two_ne_zero
  rcases lt_or_ge (position (valueAt (position (p + q)) / 2)) 0 with negative | zero
  · right
    constructor
    · refine below_of_position half negative ?_
      rw [abs_div, abs_two]
      exact (half_le_self (abs_nonneg _)).trans_lt (exists_position_of_toRat? sumValue).1
    · rcases (Set.mem_Icc.mp (position_mem (q - p))).2.eq_or_lt with top | finite
      · exact .inr (unbounded_half (unbounded_of_place? (top ▸ difference)))
      -- the difference is further from zero than the sum is, after rounding as well
      have opposite : -valueAt (position (p + q)) ≤ valueAt (position (q - p)) := by
        rw [← valueAt_neg, ← position_neg]
        exact valueAt_strictMono.monotone (position_mono (by linarith))
      have least : 0 ≤ position (q - p) := position_nonneg (by linarith)
      have differenceValue := toRat?_of_place? difference (by omega)
      refine above_of_position (place?_div differenceValue toRat?_two two_ne_zero) ?_
      have order : position (-(valueAt (position (p + q)) / 2)) ≤
          position (valueAt (position (q - p)) / 2) := position_mono (by linarith)
      rw [position_neg] at order
      omega
  · exact .inl (nonneg_of_place? half zero (position_mem _).2)

/-- Of the halves of a sum and a difference with a double that is not below zero at most one is
below zero, and then the other one is above. -/
theorem halves_cases (value : toRat? x = some p) (nonneg : Nonneg y) :
    Nonneg ((x + y) / 2.0) ∧ Nonneg ((y - x) / 2.0) ∨
      Below ((x + y) / 2.0) ∧ Above ((y - x) / 2.0) ∨
      Above ((x + y) / 2.0) ∧ Below ((y - x) / 2.0) := by
  rcases nonneg with ⟨q, nonneg, value'⟩ | unbounded
  · have sum := place?_add value value'
    have difference := place?_sub value' value
    have opposite : q - p = -p + q := by ring
    have same : p + q = q - -p := by ring
    rcases half_cases value nonneg sum difference with first | ⟨below, above⟩
    · rcases half_cases (toRat?_neg value) nonneg (opposite ▸ difference) (same ▸ sum) with
        second | ⟨below, above⟩
      · exact .inl ⟨first, second⟩
      · exact .inr (.inr ⟨above, below⟩)
    · exact .inr (.inl ⟨below, above⟩)
  · exact .inl ⟨.inr (unbounded_half (unbounded_add unbounded value)),
      .inr (unbounded_half (unbounded_sub unbounded value))⟩

/-- Neither half is below zero if the first double is no further from zero than the other one. -/
theorem halves_nonneg (value : toRat? x = some p) (value' : toRat? y = some q) (le : |p| ≤ q) :
    Nonneg ((x + y) / 2.0) ∧ Nonneg ((y - x) / 2.0) := by
  rcases abs_le.mp le with ⟨lower, upper⟩
  exact ⟨(nonneg_of_position (place?_add value value') (by linarith)).half,
    (nonneg_of_position (place?_sub value' value) (by linarith)).half⟩

end ExactRoots.Binary64
