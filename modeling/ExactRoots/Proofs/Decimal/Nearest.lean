import ExactRoots.Proofs.Binary64.Nonneg
import ExactRoots.Proofs.Natural.DecimalLength
import ExactRoots.Value.Arithmetic

/-!
# The doubles nearest to decimals

A decimal is converted to the double nearest to the rational that it denotes.  The
shortcuts for very large and very small decimals give the same double.
-/

namespace ExactRoots

namespace Binary64

variable {m : Nat} {e : Int}

/-- Only the quotient decides on the nearest double. -/
theorem nearestPattern_congr {num den num' den' : Nat} (positive : 0 < den) (positive' : 0 < den')
    (same : (num / den : Rat) = num' / den') : nearestPattern num den = nearestPattern num' den' :=
  le_antisymm (nearestPattern_mono positive positive' same.le)
    (nearestPattern_mono positive' positive same.ge)

theorem overflowThreshold_le : (overflowThreshold : Rat) ≤ 10 ^ (400 : Int) := by
  have natural : overflowThreshold ≤ 10 ^ 400 := by decide +kernel
  exact_mod_cast natural

/-- A number with digits beyond the 400th place is too large for a double. -/
theorem overflowThreshold_le_of_top (positive : 0 < m) (large : 400 < e + decimalLength m) :
    (overflowThreshold : Rat) ≤ m * 10 ^ e := by
  have digits := ten_pow_le_of_decimalLength positive
  have length := decimalLength_pos positive
  calc (overflowThreshold : Rat) ≤ 10 ^ (400 : Int) := overflowThreshold_le
    _ ≤ 10 ^ ((decimalLength m - 1 : Nat) + e : Int) := zpow_le_zpow_right₀ (by norm_num) (by omega)
    _ = 10 ^ (decimalLength m - 1) * 10 ^ e := by rw [zpow_add₀ (by norm_num), zpow_natCast]
    _ ≤ m * 10 ^ e := mul_le_mul_of_nonneg_right (by exact_mod_cast digits) (by positivity)

/-- A number of moderate length with no digit before the 400th decimal is rounded to zero. -/
theorem le_of_top_lt (moderate : m.log2 ≤ mostLength) (small : e + decimalLength m < -400) :
    (m * 10 ^ e : Rat) ≤ 2 ^ (-1075 : Int) := by
  have digits := (lt_ten_pow_decimalLength moderate).le
  have natural : 2 ^ 1075 ≤ 10 ^ 400 := by decide +kernel
  have least : (10 : Rat) ^ (-400 : Int) ≤ 2 ^ (-1075 : Int) := by
    rw [zpow_neg, zpow_neg, inv_le_inv₀ (by positivity) (by positivity)]
    exact_mod_cast natural
  calc (m * 10 ^ e : Rat) ≤ 10 ^ decimalLength m * 10 ^ e :=
        mul_le_mul_of_nonneg_right (by exact_mod_cast digits) (by positivity)
    _ = 10 ^ (decimalLength m + e : Int) := by rw [zpow_add₀ (by norm_num), zpow_natCast]
    _ ≤ 10 ^ (-400 : Int) := zpow_le_zpow_right₀ (by norm_num) (by omega)
    _ ≤ 2 ^ (-1075 : Int) := least

/-- Between the shortcuts the double is the nearest one to the quotient of two integers. -/
theorem ofScientific_of_top (negative : Bool) (positive : 0 < m) (lower : -400 ≤ e + decimalLength m)
    (upper : e + decimalLength m ≤ 400) : ∃ num den : Nat, 0 < den ∧
      (num / den : Rat) = m * 10 ^ e ∧ ofScientific negative m e = ofRatio negative num den := by
  rw [ofScientific, if_neg positive.ne']
  dsimp only
  rw [if_neg (by omega), if_neg (by omega)]
  split
  next above =>
    lift e to Nat using above
    exact ⟨_, 1, one_pos, by push_cast; simp, rfl⟩
  next below =>
    obtain ⟨k, rfl⟩ : ∃ k : Nat, e = -k := ⟨e.natAbs, by omega⟩
    refine ⟨_, _, Nat.pow_pos (by decide), ?_, rfl⟩
    rw [neg_neg, Int.toNat_natCast, zpow_neg, zpow_natCast, ← div_eq_mul_inv]
    push_cast
    rfl

/-- A decimal of moderate length is converted to the double nearest to what it denotes. -/
theorem ofScientific_eq (negative : Bool) (moderate : m.log2 ≤ mostLength) :
    ofScientific negative m e =
      ofRatio negative (m * 10 ^ e : Rat).num.natAbs (m * 10 ^ e : Rat).den := by
  have nonneg : (0 : Rat) ≤ m * 10 ^ e := by positivity
  have quotient := abs_num_div_den (m * 10 ^ e)
  rw [abs_of_nonneg nonneg] at quotient
  rcases Nat.eq_zero_or_pos m with rfl | positive
  · simp [ofScientific, ofRatio, nearestPattern_zero]
  rcases lt_or_ge 400 (e + decimalLength m) with large | upper
  · have infinite : ¬ nearestPattern (m * 10 ^ e : Rat).num.natAbs (m * 10 ^ e : Rat).den <
        infinityPattern := by
      rw [nearestPattern_lt_iff (Rat.den_pos _), quotient]
      exact not_lt_of_ge (overflowThreshold_le_of_top positive large)
    rw [ofScientific, if_neg positive.ne', if_pos large, ofRatio]
    exact congrArg _ (le_antisymm (Nat.not_lt.mp infinite) (nearestPattern_le _ _))
  rcases lt_or_ge (e + decimalLength m) (-400) with small | lower
  · have zero : nearestPattern (m * 10 ^ e : Rat).num.natAbs (m * 10 ^ e : Rat).den = 0 := by
      have none := position_eq_zero_iff.mpr ((abs_of_nonneg nonneg).trans_le
        (le_of_top_lt moderate small))
      rw [position, if_neg (Int.not_lt.mpr (Rat.num_nonneg.mpr nonneg))] at none
      exact_mod_cast none
    rw [ofScientific, if_neg positive.ne', if_neg (not_lt_of_ge upper), if_pos small, ofRatio, zero]
  · rcases ofScientific_of_top negative positive lower upper with ⟨num, den, divisor, same, double⟩
    rw [double, ofRatio, ofRatio,
      nearestPattern_congr divisor (Rat.den_pos _) (same.trans quotient.symm)]

/-- A decimal of moderate length is rounded to zero exactly when it is no larger than half the
least double. -/
theorem ofScientific_beq_zero_iff (negative : Bool) (moderate : m.log2 ≤ mostLength) :
    (ofScientific negative m e == 0.0) = true ↔ (m * 10 ^ e : Rat) ≤ 2 ^ (-1075 : Int) := by
  have nonneg : (0 : Rat) ≤ m * 10 ^ e := by positivity
  rw [ofScientific_eq negative moderate, ofRatio, ofPattern_beq_zero_iff _ (nearestPattern_le _ _)]
  conv_rhs =>
    rw [← abs_of_nonneg nonneg, ← ofRat_beq_zero_iff, ofRat, ofRatio,
      ofPattern_beq_zero_iff _ (nearestPattern_le _ _)]

/-- A decimal below the threshold is converted to a finite double, however long it is. -/
theorem isFinite_ofScientific (negative : Bool) (small : (m * 10 ^ e : Rat) < overflowThreshold) :
    (ofScientific negative m e).isFinite = true := by
  rcases Nat.eq_zero_or_pos m with rfl | positive
  · rw [ofScientific, if_pos rfl]
    cases negative <;> decide
  rcases lt_or_ge 400 (e + decimalLength m) with large | upper
  · exact absurd small (not_lt_of_ge (overflowThreshold_le_of_top positive large))
  rcases lt_or_ge (e + decimalLength m) (-400) with tiny | lower
  · rw [ofScientific, if_neg positive.ne', if_neg (not_lt_of_ge upper), if_pos tiny]
    cases negative <;> decide
  · rcases ofScientific_of_top negative positive lower upper with ⟨num, den, divisor, same, double⟩
    rwa [double, ofRatio, isFinite_ofPattern _ (nearestPattern_le _ _),
      nearestPattern_lt_iff divisor, same]

/-- A decimal of moderate length is converted to a finite double only below the threshold. -/
theorem isFinite_ofScientific_iff (negative : Bool) (moderate : m.log2 ≤ mostLength) :
    (ofScientific negative m e).isFinite = true ↔ (m * 10 ^ e : Rat) < overflowThreshold := by
  have nonneg : (0 : Rat) ≤ m * 10 ^ e := by positivity
  rw [ofScientific_eq negative moderate, ofRatio, isFinite_ofPattern _ (nearestPattern_le _ _),
    nearestPattern_lt_iff (Rat.den_pos _), abs_num_div_den, abs_of_nonneg nonneg]

/-- The value of the double nearest to a positive decimal. -/
theorem toRat?_ofScientific (moderate : m.log2 ≤ mostLength)
    (small : (m * 10 ^ e : Rat) < overflowThreshold) :
    toRat? (ofScientific false m e) = some (valueAt (position (m * 10 ^ e))) := by
  have nonneg : (0 : Rat) ≤ m * 10 ^ e := by positivity
  have finite : nearestPattern (m * 10 ^ e : Rat).num.natAbs (m * 10 ^ e : Rat).den <
      infinityPattern := by
    rwa [nearestPattern_lt_iff (Rat.den_pos _), abs_num_div_den, abs_of_nonneg nonneg]
  rw [ofScientific_eq false moderate, ofRatio, toRat?_ofPattern _ finite, position,
    if_neg (Int.not_lt.mpr (Rat.num_nonneg.mpr nonneg)), if_neg Bool.false_ne_true]

theorem place?_ofScientific (moderate : m.log2 ≤ mostLength) :
    place? (ofScientific false m e) = some (.ofPosition (position (m * 10 ^ e))) := by
  have nonneg : (0 : Rat) ≤ m * 10 ^ e := by positivity
  rw [ofScientific_eq false moderate, ofRatio, place?_ofPattern _ (nearestPattern_le _ _), position,
    if_neg (Int.not_lt.mpr (Rat.num_nonneg.mpr nonneg)), if_neg Bool.false_ne_true]

/-- The double of a decimal without sign is not below zero. -/
theorem nonneg_ofScientific (m : Nat) (e : Int) : Nonneg (ofScientific false m e) := by
  unfold ofScientific
  dsimp only
  split_ifs
  · exact nonneg_ofPattern (Nat.zero_le _)
  · exact nonneg_ofPattern le_rfl
  · exact nonneg_ofPattern (Nat.zero_le _)
  · exact nonneg_ofPattern (nearestPattern_le _ _)
  · exact nonneg_ofPattern (nearestPattern_le _ _)

end Binary64

namespace Decimal

variable {s : Bool} {m : Nat} {e : Int}

/-- The rational that a finite decimal denotes. -/
theorem toRat?_finite :
    toRat? (.finite s m e) = some (if s then -(m * 10 ^ e : Rat) else m * 10 ^ e) := by
  have signed : ((if s then -(m : Int) else m : Int) : Rat) = if s then -(m : Rat) else m := by
    cases s <;> simp
  rw [toRat?]
  split
  next above =>
    lift e to Nat using above
    push_cast [signed]
    cases s <;> simp
  next below =>
    obtain ⟨k, rfl⟩ : ∃ k : Nat, e = -k := ⟨e.natAbs, by omega⟩
    rw [neg_neg, Int.toNat_natCast, Rat.mkRat_eq_div, signed, zpow_neg, zpow_natCast]
    cases s <;> simp [div_eq_mul_inv]

theorem abs_of_toRat? {q : Rat} (value : toRat? (.finite s m e) = some q) : |q| = m * 10 ^ e := by
  have nonneg : (0 : Rat) ≤ m * 10 ^ e := by positivity
  rw [toRat?_finite] at value
  obtain rfl := Option.some.inj value
  cases s <;> simp [abs_of_nonneg nonneg]

end Decimal

end ExactRoots
