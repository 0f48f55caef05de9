import ExactRoots.Proofs.Binary64.SquareRoot

/-!
# Integers and doubles

The double nearest to an integer is an integer, and a double that is an integer is
the one nearest to it.
-/

namespace ExactRoots.Binary64

variable {x : Float} {q : Rat}

theorem ofInt_eq (n : Int) : ofInt n = ofRat n := by
  rw [ofInt, ofRat, Rat.num_intCast, Rat.den_intCast]

theorem natAbs_position (q : Rat) : (position q).natAbs = nearestPattern q.num.natAbs q.den := by
  unfold position
  split <;> omega

theorem natAbs_position_lt_iff : (position q).natAbs < infinityPattern ↔ |q| < overflowThreshold := by
  rw [natAbs_position, nearestPattern_lt_iff q.den_pos, abs_num_div_den]

/-- The value of a double is told by its position. -/
theorem exists_position_of_toRat? (value : toRat? x = some q) :
    |q| < overflowThreshold ∧ toRat? (ofRat q) = some q := by
  rcases exists_valueAt (exponentField_of_toRat? value) with ⟨n, bound, -, value'⟩
  obtain rfl : q = valueAt n := Option.some.inj (value.symm.trans value')
  have small : |valueAt n| < overflowThreshold := by
    rwa [← natAbs_position_lt_iff, position_valueAt bound]
  exact ⟨small, by rw [toRat?_ofRat small, position_valueAt bound]⟩

/-- The double nearest to a natural number is one. -/
theorem exists_natCast_of_nearestPattern {n : Nat} (finite : nearestPattern n 1 < infinityPattern) :
    ∃ k : Nat, patternValue (nearestPattern n 1) = k := by
  rcases Nat.eq_zero_or_pos n with rfl | positive
  · exact ⟨0, by simp [nearestPattern_zero]⟩
  rw [patternValue_nearestPattern positive one_pos finite]
  rcases lt_or_ge (unit n 1) 0 with below | above
  · obtain ⟨u, same, positive⟩ : ∃ u : Nat, unit n 1 = -u ∧ 0 < u :=
      ⟨(unit n 1).natAbs, by omega, by omega⟩
    have digits : mantissa (-(u : Int)) n 1 = n * 2 ^ u := by
      rw [mantissa, if_neg (by omega), neg_neg, Int.toNat_natCast, roundHalfEven_one,
        Nat.shiftLeft_eq]
    refine ⟨n, ?_⟩
    rw [same, digits, zpow_neg, zpow_natCast, Nat.cast_mul, Nat.cast_pow, Nat.cast_ofNat,
      mul_inv_cancel_right₀ (by positivity)]
  · lift unit n 1 to Nat using above with u
    exact ⟨mantissa u n 1 * 2 ^ u, by push_cast; rfl⟩

theorem exists_intCast_of_position {n : Int} (small : |(n : Rat)| < overflowThreshold) :
    ∃ k : Int, valueAt (position n) = k := by
  have finite := natAbs_position_lt_iff.mpr small
  rw [natAbs_position, Rat.num_intCast, Rat.den_intCast] at finite
  rcases exists_natCast_of_nearestPattern finite with ⟨k, value⟩
  rw [position, Rat.num_intCast, Rat.den_intCast]
  split
  · exact ⟨-k, by rw [valueAt_neg, valueAt_natCast, value]; push_cast; rfl⟩
  · exact ⟨k, by rw [valueAt_natCast, value]; push_cast; rfl⟩

/-- The double nearest to an integer is an integer. -/
theorem exists_toInt?_of_ofRat? {n : Int} (nearest : ofRat? n = some x) :
    ∃ k, toInt? x = some k := by
  rw [ofRat?_eq] at nearest
  split at nearest
  next small =>
    rcases exists_intCast_of_position small with ⟨k, value⟩
    refine ⟨k, toInt?_eq_some_iff.mpr ?_⟩
    rw [← Option.some.inj nearest, toRat?_ofRat small, value]
  next => contradiction

/-- A double that is an integer is the nearest one to it. -/
theorem exists_ofRat?_of_toInt? {n : Int} (whole : toInt? x = some n) :
    ∃ y, ofRat? n = some y ∧ toInt? y = some n := by
  rcases exists_position_of_toRat? (toInt?_eq_some_iff.mp whole) with ⟨small, value⟩
  exact ⟨ofRat n, by rw [ofRat?_eq, if_pos small], toInt?_eq_some_iff.mpr value⟩

section Zero

variable {z : Float} {n : Int} (whole : toInt? x = some n) (zero : (z == 0.0) = true)

include whole zero

/-- Adding zero keeps an integer. -/
theorem toInt?_add_zero : toInt? (x + z) = some n := by
  rw [toInt?_eq_some_iff] at whole
  rcases exists_position_of_toRat? whole with ⟨small, value⟩
  have place := place?_add whole (toRat?_of_beq_zero zero)
  rw [add_zero] at place
  rw [toInt?_eq_some_iff, toRat?_of_place? place (natAbs_position_lt_iff.mpr small), ← value,
    toRat?_ofRat small]

theorem toInt?_sub_zero : toInt? (x - z) = some n := by
  rw [sub_eq_add]
  refine toInt?_add_zero whole ?_
  have negated := toRat?_neg (toRat?_of_beq_zero zero)
  rw [neg_zero, ← Int.cast_zero, ← toInt?_eq_some_iff] at negated
  rw [beq_zero_of_toInt? negated]
  rfl

end Zero

end ExactRoots.Binary64
