import ExactRoots.Proofs.Binary64.Nonneg

/-!
# Results that are zero

Infinities and NaN are absorbed by sums, differences and products.  Adding or
subtracting zero, and doubling, leads to zero only from zero.
-/

namespace ExactRoots.Binary64

open Float.Model

variable {x y : Float} {p q : Rat}

/-! ## Infinities and NaN -/

/-- Whether an unpacked double is infinite or NaN. -/
def IsSpecial : UnpackedFloat → Prop
  | .notANumber | .infinity _ => True
  | .zero _ | .finite .. => False

theorem isSpecial_iff : IsSpecial x.toModel.unpack ↔ toRat? x = none := by
  rw [toRat?, dyadic?_eq_unpackedDyadic?, Option.map_eq_none_iff]
  cases x.toModel.unpack <;> simp [IsSpecial, unpackedDyadic?]

theorem toRat?_of_isSpecial {u : UnpackedFloat} (packed : x.toModel = .pack u)
    (special : IsSpecial u) : toRat? x = none := by
  rw [← isSpecial_iff, packed]
  rcases u with _ | _ | _ | _
  case infinity s => cases s <;> exact trivial
  case notANumber => exact trivial
  case zero | finite => exact False.elim special

theorem isSpecial_mul {u v : UnpackedFloat} (special : IsSpecial u) :
    IsSpecial (UnpackedFloat.mul Format.binary64 u v) := by
  rcases u with _ | _ | _ | _ <;> rcases v with _ | _ | _ | _ <;>
    first | exact False.elim special | exact trivial

theorem isSpecial_add {u v : UnpackedFloat} (special : IsSpecial u ∨ IsSpecial v) :
    IsSpecial (UnpackedFloat.add Format.binary64 u v) := by
  rcases u with _ | _ | _ | _ <;> rcases v with _ | _ | _ | _
  case infinity.infinity s t => cases s <;> cases t <;> exact trivial
  all_goals
    rcases special with special | special <;> first | exact False.elim special | exact trivial

theorem toRat?_mul_of_none (special : toRat? x = none) : toRat? (x * y) = none := by
  rw [← isSpecial_iff] at special
  have packed : (x * y).toModel = .pack (UnpackedFloat.mul Format.binary64 x.toModel.unpack
    y.toModel.unpack) := rfl
  exact toRat?_of_isSpecial packed (isSpecial_mul special)

theorem toRat?_add_of_none (special : toRat? x = none ∨ toRat? y = none) :
    toRat? (x + y) = none := by
  rw [← isSpecial_iff, ← isSpecial_iff] at special
  exact toRat?_of_isSpecial (unpack_add x y) (isSpecial_add special)

theorem toRat?_sub_of_none (special : toRat? x = none ∨ toRat? y = none) :
    toRat? (x - y) = none := by
  rw [sub_eq_add]
  apply toRat?_add_of_none
  apply special.imp_right
  intro none
  rw [toRat?, Option.map_eq_none_iff] at none
  rw [toRat?, dyadic?_neg, none]
  rfl

/-- A zero denotes the number zero. -/
theorem exists_toRat?_of_beq_zero (zero : (x == 0.0) = true) : toRat? x ≠ none := by
  rw [toRat?_of_beq_zero zero]
  exact Option.some_ne_none 0

/-- Every other double denotes a number. -/
theorem exists_toRat? (number : x.isNaN = false) (bounded : x.isInf = false) :
    ∃ q, toRat? x = some q := by
  rw [← Option.ne_none_iff_exists', ne_eq, ← isSpecial_iff]
  have unpackedNumber : x.toModel.unpack.isNaN = false := number
  have unpackedBounded : x.toModel.unpack.isInf = false := bounded
  rcases unpacked : x.toModel.unpack with _ | _ | _ | _
  case notANumber =>
    rw [unpacked] at unpackedNumber
    contradiction
  case infinity s =>
    rw [unpacked] at unpackedBounded
    contradiction
  case zero | finite => exact id

/-! ## Equal doubles -/

/-- The place of an infinity is that of no number. -/
theorem isSpecial_of_unpackedPlace? {u v : UnpackedFloat} {a : Place}
    (left : unpackedPlace? u = some a) (right : unpackedPlace? v = some a)
    (special : IsSpecial v) : IsSpecial u := by
  rcases u with (_ | _) | _ | _ | ⟨_ | _, m, e, positive⟩ <;>
    rcases v with (_ | _) | _ | _ | ⟨_ | _, n, k, positive'⟩ <;>
    first
      | exact trivial
      | exact False.elim special
      | simp [unpackedPlace?, ← left, Place.of] at right

/-- Equal doubles have equal values. -/
theorem toRat?_of_beq (same : (x == y) = true) (value : toRat? y = some q) : toRat? x = some q := by
  rcases beq_iff_places.mp same with ⟨a, xPlace, yPlace⟩
  rcases xValue : toRat? x with _ | p
  · rw [← isSpecial_iff] at xValue
    rw [isSpecial_iff.mp (isSpecial_of_unpackedPlace? yPlace xPlace xValue)] at value
    contradiction
  · rw [place?_of_toRat? xValue] at xPlace
    rw [place?_of_toRat? value, ← xPlace, Option.some.injEq] at yPlace
    have positions := Place.ofPosition_strictMonoOn.injOn (position_mem q) (position_mem p) yPlace
    rw [← valueAt_position_of_toRat? xValue, ← valueAt_position_of_toRat? value, positions]

/-! ## Zeros -/

theorem beq_zero_iff_toRat? : (x == 0.0) = true ↔ toRat? x = some 0 := by
  constructor
  · exact toRat?_of_beq_zero
  · intro value
    rw [← Int.cast_zero, ← toInt?_eq_some_iff] at value
    rw [beq_zero_of_toInt? value]
    rfl

/-- What is neither below zero nor zero is above it. -/
theorem Nonneg.above (nonneg : Nonneg x) (nonzero : (x == 0.0) = false) : Above x := by
  rcases nonneg with ⟨p, nonneg, value⟩ | unbounded
  · refine .inl ⟨p, nonneg.lt_of_ne' ?_, value⟩
    rintro rfl
    rw [beq_zero_iff_toRat?.mpr value] at nonzero
    contradiction
  · exact .inr unbounded

/-- A number is rounded to zero only if it is too small for a double. -/
theorem beq_zero_of_position (value : toRat? x = some p) (place : position p = 0) :
    (x == 0.0) = true := by
  rw [beq_zero_iff_toRat?, value, ← valueAt_position_of_toRat? value, place, valueAt_zero]

theorem position_of_beq_zero (place : place? x = some (.ofPosition (position p)))
    (zero : (x == 0.0) = true) : position p = 0 := by
  rw [beq_zero_iff, place, Option.some.injEq] at zero
  have bounds := position_mem p
  exact Place.ofPosition_strictMonoOn.injOn bounds (Set.mem_Icc.mpr (by decide)) zero

/-- A number differs from an equal one by zero. -/
theorem beq_zero_sub_of_beq (same : (x == y) = true) (value : toRat? y = some q) :
    (x - y == 0.0) = true := by
  have zero : position 0 = 0 := position_eq_zero_iff.mpr (by rw [abs_zero]; positivity)
  rw [beq_zero_iff, place?_sub (toRat?_of_beq same value) value, sub_self, zero]
  rfl

/-- A double is zero if it is zero when zero is subtracted. -/
theorem beq_zero_of_sub_zero (vanishes : (y == 0.0) = true) (zero : (x - y == 0.0) = true) :
    (x == 0.0) = true := by
  rcases value : toRat? x with _ | p
  · exact absurd (toRat?_sub_of_none (.inl value)) (exists_toRat?_of_beq_zero zero)
  · have place := place?_sub value (toRat?_of_beq_zero vanishes)
    rw [sub_zero] at place
    exact beq_zero_of_position value (position_of_beq_zero place zero)

/-- A double is zero if it is zero when it is added to zero. -/
theorem beq_zero_of_zero_add (vanishes : (y == 0.0) = true) (zero : (y + x == 0.0) = true) :
    (x == 0.0) = true := by
  rcases value : toRat? x with _ | p
  · exact absurd (toRat?_add_of_none (.inr value)) (exists_toRat?_of_beq_zero zero)
  · have place := place?_add (toRat?_of_beq_zero vanishes) value
    rw [zero_add] at place
    exact beq_zero_of_position value (position_of_beq_zero place zero)

/-- A double is zero if twice it is. -/
theorem beq_zero_of_mul_two (zero : (x * 2.0 == 0.0) = true) : (x == 0.0) = true := by
  rcases value : toRat? x with _ | p
  · exact absurd (toRat?_mul_of_none value) (exists_toRat?_of_beq_zero zero)
  · apply beq_zero_of_position value
    have doubled := position_of_beq_zero (place?_mul value toRat?_two) zero
    rw [position_eq_zero_iff, abs_mul, abs_two] at doubled
    rw [position_eq_zero_iff]
    linarith [abs_nonneg p]

/-- A double is zero when its absolute value is. -/
theorem beq_zero_of_abs {y : Float} (zero : (y.abs == 0.0) = true) : (y == 0.0) = true := by
  rw [beq_zero_iff_unpack] at zero ⊢
  rcases zero with ⟨s, unpacked⟩
  rw [unpack_abs] at unpacked
  rw [unpack_eq]
  unfold ofFields at unpacked ⊢
  split_ifs at unpacked ⊢
  exact ⟨_, rfl⟩

/-- A double is zero if its absolute value is at most that of a zero. -/
theorem beq_zero_of_abs_le (zero : (x.abs == 0.0) = true) (le : y.abs ≤ x.abs) :
    (y == 0.0) = true := by
  apply beq_zero_of_abs
  rcases le_iff_places.mp le with ⟨a, b, yPlace, xPlace, below⟩
  rw [beq_zero_iff, xPlace, Option.some.injEq] at zero
  have number : y.abs.isNaN = false := isNaN_eq_false_iff.mpr ⟨a, yPlace⟩
  rcases le_iff_places.mp (zero_le_abs number) with ⟨c, d, zeroPlace, yPlace', above⟩
  rw [place?_zero] at zeroPlace
  rw [yPlace, Option.some.injEq] at yPlace'
  cases zeroPlace
  subst yPlace' zero
  rw [beq_zero_iff, yPlace, below.antisymm above]

end ExactRoots.Binary64
