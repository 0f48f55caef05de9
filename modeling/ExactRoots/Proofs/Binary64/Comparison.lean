import ExactRoots.Proofs.Binary64.Operations

/-!
# Comparing doubles by value

Finite doubles compare as the rationals that they denote.  A double above zero is
finite or infinite, and the product of two such doubles is never NaN.
-/

namespace ExactRoots.Binary64

open Float.Model

variable {x y : Float} {p q : Rat}

theorem position_lt_iff_of_toRat? (left : toRat? x = some p) (right : toRat? y = some q) :
    position p < position q ↔ p < q := by
  rcases exists_valueAt (exponentField_of_toRat? left) with ⟨m, mBound, -, mValue⟩
  rcases exists_valueAt (exponentField_of_toRat? right) with ⟨n, nBound, -, nValue⟩
  obtain rfl : p = valueAt m := Option.some.inj (left.symm.trans mValue)
  obtain rfl : q = valueAt n := Option.some.inj (right.symm.trans nValue)
  rw [position_valueAt mBound, position_valueAt nBound, valueAt_strictMono.lt_iff_lt]

/-- Finite doubles compare as their values do. -/
theorem lt_iff_of_toRat? (left : toRat? x = some p) (right : toRat? y = some q) :
    x < y ↔ p < q := by
  rw [← position_lt_iff_of_toRat? left right, lt_iff_places, place?_of_toRat? left,
    place?_of_toRat? right]
  simp [Place.ofPosition_strictMonoOn.lt_iff_lt (position_mem p) (position_mem q)]

/-- Only a number is above another one, so what is not above may be NaN. -/
theorem not_lt_iff (number : x.isNaN = false) : ¬ x < y ↔ y ≤ x ∨ y.isNaN := by
  cases isNumber : y.isNaN with
  | false => simp [not_lt number isNumber]
  | true =>
    suffices ¬ x < y by simpa
    intro less
    rw [(isNaN_of_lt less).2] at isNumber
    contradiction

theorem toRat?_zero : toRat? 0.0 = some 0 := toRat?_of_beq_zero rfl

/-- A double above zero is infinite or finite, with the sign plus. -/
theorem unpack_of_pos (positive : 0.0 < x) : x.toModel.unpack = .infinity .positive ∨
    ∃ m e, ∃ nonzero : 0 < m, x.toModel.unpack = .finite .positive m e nonzero := by
  rcases lt_iff_places.mp positive with ⟨a, b, zeroPlace, place, less⟩
  obtain rfl : Place.zero = a := Option.some.inj (place?_zero.symm.trans zeroPlace)
  rcases unpacked : x.toModel.unpack with (_ | _) | _ | s | ⟨_ | _, m, e, nonzero⟩ <;>
    rw [place?, unpacked] at place
  case infinity.positive => exact .inl rfl
  case finite.positive => exact .inr ⟨m, e, nonzero, rfl⟩
  case notANumber => contradiction
  all_goals
    obtain rfl := Option.some.inj place
    rw [Place.zero, Place.of_lt_of_iff] at less
    omega

/-- A product of doubles above zero is a number. -/
theorem isNaN_mul_of_pos (left : 0.0 < x) (right : 0.0 < y) : (x * y).isNaN = false := by
  have packed : (x * y).toModel = .pack (UnpackedFloat.mul Format.binary64 x.toModel.unpack
    y.toModel.unpack) := rfl
  have infinite : (x * y).toModel = .pack (.infinity .positive) → (x * y).isNaN = false := by
    intro infinite
    have unfolded : (x * y).isNaN = (x * y).toModel.unpack.isNaN := rfl
    rw [unfolded, infinite]
    decide
  rcases unpack_of_pos left with xInfinite | ⟨m, e, nonzero, xFinite⟩ <;>
    rcases unpack_of_pos right with yInfinite | ⟨n, f, nonzero', yFinite⟩
  · exact infinite (by rw [packed, xInfinite, yInfinite]; rfl)
  · exact infinite (by rw [packed, xInfinite, yFinite]; rfl)
  · exact infinite (by rw [packed, xFinite, yInfinite]; rfl)
  · have xValue : toRat? x = some (Dyadic.toRat ⟨false, m, e⟩) := by
      rw [toRat?, dyadic?_eq_unpackedDyadic?, xFinite]
      rfl
    have yValue : toRat? y = some (Dyadic.toRat ⟨false, n, f⟩) := by
      rw [toRat?, dyadic?_eq_unpackedDyadic?, yFinite]
      rfl
    exact isNaN_eq_false_iff.mpr ⟨_, place?_mul xValue yValue⟩

end ExactRoots.Binary64
