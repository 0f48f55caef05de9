import ExactRoots.Proofs.Binary64.Zero
import ExactRoots.Proofs.Proportion

/-!
# Roots of rounded squares

The square of a double may be rounded down, but by so little that its square root is
rounded back to the double, as long as the square is a normal number.  A sum of two such
squares therefore has a root that is no smaller than either double.
-/

namespace ExactRoots.Binary64

variable {x : Float} {p q z : Rat}

/-- A normal number is near in proportion to the double next to it. -/
theorem position_near (positive : 0 < q) (small : q < overflowThreshold)
    (normal : 2 ^ (-1022 : Int) ≤ q) : Near (1 / 2 ^ 53) q (valueAt (position q)) := by
  have quotient : (q.num.natAbs / q.den : Rat) = q := by
    rw [abs_num_div_den, abs_of_pos positive]
  have numPositive : 0 < q.num.natAbs := Int.natAbs_pos.mpr (Rat.num_pos.mpr positive).ne'
  have finite : nearestPattern q.num.natAbs q.den < infinityPattern := by
    rwa [nearestPattern_lt_iff q.den_pos, quotient]
  have near := abs_patternValue_sub_le numPositive q.den_pos finite
  have value := patternValue_nearestPattern numPositive q.den_pos finite
  have digits : 2 ^ 52 ≤ mantissa (unit q.num.natAbs q.den) q.num.natAbs q.den := by
    apply le_mantissa q.den_pos
    rw [quotient, Nat.cast_pow, Nat.cast_ofNat, ← zpow_natCast, ← zpow_add₀ two_ne_zero, add_comm]
    rcases (unit_spec numPositive q.den_pos).2.2 with least | lower
    · rw [least]
      exact normal
    · rwa [quotient] at lower
  have digits : (2 ^ 52 : Rat) ≤ mantissa (unit q.num.natAbs q.den) q.num.natAbs q.den := by
    exact_mod_cast digits
  have power : (0 : Rat) < 2 ^ unit q.num.natAbs q.den := by positivity
  rw [Near, valueAt_position positive.le, abs_sub_comm]
  rw [quotient] at near
  refine near.trans ?_
  rw [value]
  calc (2 ^ unit q.num.natAbs q.den / 2 : Rat)
      = 1 / 2 ^ 53 * (2 ^ 52 * 2 ^ unit q.num.natAbs q.den) := by ring
    _ ≤ _ := mul_le_mul_of_nonneg_left (mul_le_mul_of_nonneg_right digits power.le) (by norm_num)

/-- The value of a pattern is at most so many units of the gap below it. -/
theorem patternValue_succ_le_gap (pattern : Nat) : patternValue (pattern + 1) ≤
    2 ^ 53 * 2 ^ (((max 1 (pattern / 2 ^ 52) : Nat) : Int) - 1075) := by
  have digits : pattern - (max 1 (pattern / 2 ^ 52) - 1) * 2 ^ 52 + 1 ≤ 2 ^ 53 := by omega
  have digits : ((pattern - (max 1 (pattern / 2 ^ 52) - 1) * 2 ^ 52 : Nat) + 1 : Rat) ≤ 2 ^ 53 := by
    exact_mod_cast digits
  rw [patternValue_succ, patternValue, ← add_one_mul]
  exact mul_le_mul_of_nonneg_right digits (by positivity)

/-- What is less than half a gap below a double is rounded to it, or to a larger one. -/
theorem le_position_of_near {pattern : Nat} (finite : pattern + 1 < infinityPattern)
    (above : patternValue (pattern + 1) * (1 - (1 / 2 ^ 54 - 1 / 2 ^ 108)) ≤ z) :
    ((pattern + 1 : Nat) : Int) ≤ position z := by
  have largest : 0 < patternValue (pattern + 1) := by
    rw [← patternValue_zero]
    exact patternValue_strictMono (by omega)
  rcases le_or_gt (patternValue (pattern + 1)) z with beyond | less
  · rw [← position_patternValue finite]
    exact position_mono beyond
  have positive : 0 < z := (mul_pos largest (by norm_num)).trans_le above
  have quotient : (z.num.natAbs / z.den : Rat) = z := by
    rw [abs_num_div_den, abs_of_pos positive]
  have numPositive : 0 < z.num.natAbs := Int.natAbs_pos.mpr (Rat.num_pos.mpr positive).ne'
  by_contra! smaller
  rw [position, if_neg (Int.not_lt.mpr (Rat.num_nonneg.mpr positive.le))] at smaller
  have finite' : nearestPattern z.num.natAbs z.den < infinityPattern := by omega
  have near := abs_patternValue_sub_le numPositive z.den_pos finite'
  have below : patternValue (nearestPattern z.num.natAbs z.den) ≤ patternValue pattern :=
    patternValue_strictMono.monotone (by omega)
  have gap := patternValue_succ pattern
  have top := patternValue_succ_le_gap pattern
  have least : -1074 ≤ ((max 1 (pattern / 2 ^ 52) : Nat) : Int) - 1075 := by omega
  generalize ((max 1 (pattern / 2 ^ 52) : Nat) : Int) - 1075 = g at gap top least
  have unit_le : (2 : Rat) ^ unit z.num.natAbs z.den ≤ 2 ^ g := by
    apply zpow_le_zpow_right₀ one_le_two
    rcases (unit_spec numPositive z.den_pos).2.2 with bottom | lower
    · omega
    · rw [quotient] at lower
      have ordered := lower.trans_lt (less.trans_le top)
      rw [← zpow_natCast, ← zpow_add₀ two_ne_zero, zpow_lt_zpow_iff_right₀ one_lt_two] at ordered
      omega
  have power : (0 : Rat) < 2 ^ g := by positivity
  rw [quotient, abs_le] at near
  have half : patternValue (pattern + 1) * (1 / 2 ^ 54 - 1 / 2 ^ 108) < 2 ^ g / 2 := by
    calc patternValue (pattern + 1) * (1 / 2 ^ 54 - 1 / 2 ^ 108)
        ≤ 2 ^ 53 * 2 ^ g * (1 / 2 ^ 54 - 1 / 2 ^ 108) :=
          mul_le_mul_of_nonneg_right top (by norm_num)
      _ < 2 ^ g / 2 := by linarith
  linarith [near.1]

/-- The size of a double that is not zero is where its value is, which is not at zero. -/
theorem exists_patternValue_succ (value : toRat? x = some p) (nonzero : p ≠ 0) :
    ∃ pattern, pattern + 1 < infinityPattern ∧ |p| = patternValue (pattern + 1) := by
  rcases exists_valueAt (exponentField_of_toRat? value) with ⟨n, bound, -, value'⟩
  obtain rfl : p = valueAt n := Option.some.inj (value.symm.trans value')
  have apart : n ≠ 0 := by
    rintro rfl
    exact nonzero valueAt_zero
  refine ⟨n.natAbs - 1, by omega, ?_⟩
  rw [Nat.sub_add_cancel (by omega), valueAt]
  split
  · rw [abs_neg, abs_of_nonneg (patternValue_nonneg _)]
  · exact abs_of_nonneg (patternValue_nonneg _)

/-- Where the square of a number is normal, the double next to it is so little smaller than the
square that it is no smaller than the square of a number just below. -/
theorem sq_le_of_position_sq_le (normal : 2 ^ (-511 : Int) ≤ |p|) (small : p * p < overflowThreshold)
    (larger : valueAt (position (p * p)) ≤ q) :
    |p| * (1 - (1 / 2 ^ 54 - 1 / 2 ^ 108)) * (|p| * (1 - (1 / 2 ^ 54 - 1 / 2 ^ 108))) ≤ q := by
  have size : 0 < |p| := lt_of_lt_of_le (by positivity) normal
  have positive : 0 < p * p := by
    rw [← abs_mul_abs_self]
    exact mul_pos size size
  have squareNormal : (2 : Rat) ^ (-1022 : Int) ≤ p * p := by
    rw [← abs_mul_abs_self]
    calc (2 : Rat) ^ (-1022 : Int) = 2 ^ (-511 : Int) * 2 ^ (-511 : Int) :=
          zpow_add₀ two_ne_zero (-511) (-511)
      _ ≤ |p| * |p| := mul_le_mul normal normal (by positivity) size.le
  have near := (position_near positive small squareNormal).le
  have rounded : 0 ≤ valueAt (position (p * p)) := by
    rw [← valueAt_zero]
    exact valueAt_strictMono.monotone (position_nonneg positive.le)
  calc |p| * (1 - (1 / 2 ^ 54 - 1 / 2 ^ 108)) * (|p| * (1 - (1 / 2 ^ 54 - 1 / 2 ^ 108)))
      = p * p * (1 - (1 / 2 ^ 54 - 1 / 2 ^ 108)) ^ 2 := by
        rw [← abs_mul_abs_self p]
        ring
    _ ≤ (1 + 1 / 2 ^ 53) * valueAt (position (p * p)) *
        (1 - (1 / 2 ^ 54 - 1 / 2 ^ 108)) ^ 2 :=
      mul_le_mul_of_nonneg_right near (by norm_num)
    _ = (1 + 1 / 2 ^ 53) * (1 - (1 / 2 ^ 54 - 1 / 2 ^ 108)) ^ 2 *
        valueAt (position (p * p)) := by ring
    _ ≤ valueAt (position (p * p)) := mul_le_of_le_one_left rounded (by norm_num)
    _ ≤ q := larger

/-- The root of a number that is no smaller than the rounded square of a double is no smaller than
the double, as long as the square is normal. -/
theorem le_sqrt_of_square {y : Float} (value : toRat? x = some p)
    (normal : 2 ^ (-511 : Int) ≤ |p|) (above : toRat? y = some q)
    (larger : position (p * p) ≤ position q) : ∃ r, toRat? y.sqrt = some r ∧ |p| ≤ r := by
  have size : 0 < |p| := lt_of_lt_of_le (by positivity) normal
  have square : p * p < overflowThreshold := by
    have nonneg := position_nonneg (mul_self_nonneg p)
    have finite := natAbs_position_lt_iff.mpr (exists_position_of_toRat? above).1
    rw [← abs_of_nonneg (mul_self_nonneg p), ← natAbs_position_lt_iff]
    omega
  have larger : valueAt (position (p * p)) ≤ q := by
    rw [← valueAt_position_of_toRat? above]
    exact valueAt_strictMono.monotone larger
  have shrunk := sq_le_of_position_sq_le normal square larger
  have below : 0 < |p| * (1 - (1 / 2 ^ 54 - 1 / 2 ^ 108)) := mul_pos size (by norm_num)
  have positive : 0 < q := (mul_pos below below).trans_le shrunk
  rcases exists_patternValue_succ value (abs_pos.mp size) with ⟨pattern, finite, same⟩
  rcases place?_sqrt above positive.le with ⟨n, place, between⟩
  have lower : (pattern + 1 : Nat) ≤ n := by
    rw [same] at below shrunk
    exact (le_position_of_near finite le_rfl).trans ((between _ below.le).1 shrunk)
  rcases sqrt_spec above positive with ⟨k, -, kFinite, place', root, -⟩
  have upper := ((between (q + 1) (by linarith)).2 (by nlinarith)).trans (position_mem _).2
  obtain rfl : n = k := Place.ofPosition_strictMonoOn.injOn (Set.mem_Icc.mpr (by omega))
    (Set.mem_Icc.mpr (by omega)) (Option.some.inj (place.symm.trans place'))
  refine ⟨_, root, ?_⟩
  rw [same]
  exact patternValue_strictMono.monotone (by exact_mod_cast lower)

theorem Unbounded.toRat?_eq_none (unbounded : Unbounded x) : toRat? x = none := by
  rw [← isSpecial_iff, unbounded]
  trivial

theorem position_eq_of_place? (value : toRat? x = some p)
    (place : place? x = some (.ofPosition (position q))) : position p = position q :=
  Place.ofPosition_strictMonoOn.injOn (position_mem _) (position_mem _)
    (Option.some.inj ((place?_of_toRat? value).symm.trans place))

/-- A finite sum of two squares lies no lower than either square. -/
theorem position_le_of_squares {y : Float} {s : Rat} (value : toRat? x = some p)
    (value' : toRat? y = some q) (finite : toRat? (x * x + y * y) = some s) :
    position (p * p) ≤ position s ∧ position (q * q) ≤ position s := by
  rcases nonneg_mul_self value with ⟨u, uNonneg, uValue⟩ | unbounded
  · rcases nonneg_mul_self value' with ⟨v, vNonneg, vValue⟩ | unbounded
    · rw [← position_eq_of_place? uValue (place?_mul value value),
        ← position_eq_of_place? vValue (place?_mul value' value'),
        position_eq_of_place? finite (place?_add uValue vValue)]
      exact ⟨position_mono (by linarith), position_mono (by linarith)⟩
    · rw [toRat?_add_of_none (.inr unbounded.toRat?_eq_none)] at finite
      contradiction
  · rw [toRat?_add_of_none (.inl unbounded.toRat?_eq_none)] at finite
    contradiction

/-- The root of the sum of two squares of doubles is infinite, or no smaller than the larger of both
if the square of that is normal. -/
theorem le_sqrt_of_squares {y : Float} (value : toRat? x = some p) (value' : toRat? y = some q)
    (normal : 2 ^ (-511 : Int) ≤ max |p| |q|) : Unbounded (x * x + y * y).sqrt ∨
      ∃ r, toRat? (x * x + y * y).sqrt = some r ∧ max |p| |q| ≤ r := by
  rcases (nonneg_mul_self value).add (nonneg_mul_self value') with ⟨s, -, finite⟩ | unbounded
  · right
    rcases position_le_of_squares value value' finite with ⟨left, right⟩
    rcases max_cases |p| |q| with ⟨same, -⟩ | ⟨same, -⟩ <;> rw [same] at normal ⊢
    · exact le_sqrt_of_square value normal finite left
    · exact le_sqrt_of_square value' normal finite right
  · exact .inl (unbounded_sqrt unbounded)

/-! ## Doubles that are large enough -/

variable {y : Float}

/-- Whether a double is infinite or denotes a number that is no smaller than the size of another
one. -/
def Dominates (y : Float) (p : Rat) : Prop := Unbounded y ∨ ∃ q, toRat? y = some q ∧ |p| ≤ q

/-- Neither half of a sum and a difference with a double that dominates is below zero. -/
theorem Dominates.halves_nonneg (dominates : Dominates y p) (value : toRat? x = some p) :
    Nonneg ((x + y) / 2.0) ∧ Nonneg ((y - x) / 2.0) := by
  rcases dominates with unbounded | ⟨q, value', le⟩
  · exact ⟨.inr (unbounded_half (unbounded_add unbounded value)),
      .inr (unbounded_half (unbounded_sub unbounded value))⟩
  · exact Binary64.halves_nonneg value value' le

theorem dominates_of_place? (value : toRat? x = some p)
    (place : place? y = some (.ofPosition (position q))) (le : position |p| ≤ position q) :
    Dominates y p := by
  rcases (Set.mem_Icc.mp (position_mem q)).2.eq_or_lt with top | finite
  · exact .inl (unbounded_of_place? (top ▸ place))
  · have nonneg := position_nonneg (abs_nonneg p)
    refine .inr ⟨_, toRat?_of_place? place (by omega), ?_⟩
    have same : valueAt (position |p|) = |p| := by
      rcases abs_choice p with positive | negative
      · rw [positive, valueAt_position_of_toRat? value]
      · rw [negative, valueAt_position_of_toRat? (toRat?_neg value)]
    rw [← same]
    exact valueAt_strictMono.monotone le

/-- The double of a number dominates another one that is not much larger in size. -/
theorem dominates_of_near (value : toRat? x = some p)
    (place : place? y = some (.ofPosition (position q))) (nonneg : 0 ≤ q)
    (near : |p| * (1 - (1 / 2 ^ 54 - 1 / 2 ^ 108)) ≤ q) : Dominates y p := by
  rcases eq_or_ne p 0 with rfl | nonzero
  · refine dominates_of_place? value place ?_
    rw [abs_zero]
    exact position_mono nonneg
  · rcases exists_patternValue_succ value nonzero with ⟨pattern, finite, same⟩
    refine dominates_of_place? value place ?_
    rw [same] at near ⊢
    rw [position_patternValue finite]
    exact le_position_of_near finite near

end ExactRoots.Binary64
