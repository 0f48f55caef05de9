import ExactRoots.Proofs.Binary64.FixedPoint
import ExactRoots.Proofs.Decimal.Nearest
import Mathlib.Analysis.Complex.ExponentialBounds
import Mathlib.Analysis.SpecialFunctions.Log.Base

/-!
# The accuracy of common logarithms

The common logarithm of a double is the double nearest to a number that differs from the true
logarithm by less than `2 ^ -98`.
-/

namespace ExactRoots.Binary64

/-! ## Logarithms in fixed point -/

theorem logTwo_truncates : Truncates 361 logTwo (2 ^ fixedBits * Real.log 2) := by
  have series := @twiceArtanh_truncates 1 3 (by decide) (by decide)
  have two : ((3 : ℕ) + (1 : ℕ) : ℝ) / ((3 : ℕ) - (1 : ℕ)) = 2 := by norm_num
  rwa [two] at series

theorem logTen_truncates : Truncates 1444 logTen (2 ^ fixedBits * Real.log 10) := by
  have series := @twiceArtanh_truncates 1 9 (by decide) (by decide)
  have quotient : ((9 : ℕ) + (1 : ℕ) : ℝ) / ((9 : ℕ) - (1 : ℕ)) = 5 / 4 := by norm_num
  rw [quotient] at series
  have ten : Real.log 10 = 3 * Real.log 2 + Real.log (5 / 4) := by
    rw [← Real.log_rpow two_pos, ← Real.log_mul (by positivity) (by norm_num)]
    norm_num
  have sum := ((Truncates.exact 3).mul logTwo_truncates).add series
  rw [Nat.cast_ofNat] at sum
  rw [ten, mul_add, mul_left_comm]
  exact sum.mono (by norm_num)

variable {d : Dyadic}

/-- The logarithm of the mantissa as a number from one to two. -/
theorem mantissa_truncates (positive : 0 < d.mantissa) :
    Truncates 361
      (twiceArtanh (d.mantissa - 2 ^ d.mantissa.log2) (d.mantissa + 2 ^ d.mantissa.log2))
      (2 ^ fixedBits * (Real.log d.mantissa - d.mantissa.log2 * Real.log 2)) := by
  have least : 2 ^ d.mantissa.log2 ≤ d.mantissa := Nat.log2_self_le positive.ne'
  have most : d.mantissa < 2 ^ (d.mantissa.log2 + 1) := Nat.lt_log2_self
  rw [pow_succ] at most
  have series := @twiceArtanh_truncates (d.mantissa - 2 ^ d.mantissa.log2)
    (d.mantissa + 2 ^ d.mantissa.log2) (by omega) (by omega)
  have quotient : (((d.mantissa + 2 ^ d.mantissa.log2 : ℕ) : ℝ) +
        (d.mantissa - 2 ^ d.mantissa.log2 : ℕ)) /
      ((d.mantissa + 2 ^ d.mantissa.log2 : ℕ) - (d.mantissa - 2 ^ d.mantissa.log2 : ℕ)) =
        d.mantissa / 2 ^ d.mantissa.log2 := by
    push_cast [least]
    rw [add_add_sub_cancel, add_sub_sub_cancel, ← two_mul, ← two_mul,
      mul_div_mul_left _ _ two_ne_zero]
  rw [quotient, Real.log_div (by positivity) (by positivity), Real.log_pow] at series
  exact series

theorem naturalLog_eq (d : Dyadic) : naturalLog d =
    (twiceArtanh (d.mantissa - 2 ^ d.mantissa.log2) (d.mantissa + 2 ^ d.mantissa.log2) : ℤ) +
      (d.exponent + d.mantissa.log2) * logTwo := rfl

theorem log_eq (positive : 0 < d.mantissa) : Real.log (d.mantissa * 2 ^ d.exponent) =
    Real.log d.mantissa - d.mantissa.log2 * Real.log 2 +
      (d.exponent + d.mantissa.log2 : ℤ) * Real.log 2 := by
  rw [Real.log_mul (by positivity) (by positivity), Real.log_zpow]
  push_cast
  ring

/-- The natural logarithm of a dyadic number is off by a few hundred units for each power of two. -/
theorem abs_naturalLog_sub_le (positive : 0 < d.mantissa) :
    |naturalLog d - 2 ^ fixedBits * Real.log (d.mantissa * 2 ^ d.exponent)| ≤
      361 * (1 + |(d.exponent + d.mantissa.log2 : ℤ)| : ℤ) := by
  have first := (mantissa_truncates positive).abs_sub_le
  have second := mul_le_mul_of_nonneg_left logTwo_truncates.abs_sub_le
    (abs_nonneg ((d.exponent + d.mantissa.log2 : ℤ) : ℝ))
  rw [← abs_mul] at second
  have split : (naturalLog d : ℝ) - 2 ^ fixedBits * Real.log (d.mantissa * 2 ^ d.exponent) =
      ((twiceArtanh (d.mantissa - 2 ^ d.mantissa.log2) (d.mantissa + 2 ^ d.mantissa.log2) : ℝ) -
        2 ^ fixedBits * (Real.log d.mantissa - d.mantissa.log2 * Real.log 2)) +
      ((d.exponent + d.mantissa.log2 : ℤ) : ℝ) * (logTwo - 2 ^ fixedBits * Real.log 2) := by
    rw [log_eq positive, naturalLog_eq]
    push_cast
    ring
  rw [split]
  refine (abs_add_le _ _).trans ((add_le_add first second).trans_eq ?_)
  push_cast
  ring

/-- The logarithm of a dyadic number has about the size of the exponent. -/
theorem abs_log_le (positive : 0 < d.mantissa) :
    |Real.log (d.mantissa * 2 ^ d.exponent)| ≤
      (1 + |(d.exponent + d.mantissa.log2 : ℤ)| : ℤ) * Real.log 10 := by
  have least : (2 : ℝ) ^ d.mantissa.log2 ≤ d.mantissa := by
    exact_mod_cast Nat.log2_self_le positive.ne'
  have most : (d.mantissa : ℝ) ≤ 2 ^ (d.mantissa.log2 + 1) := by
    exact_mod_cast Nat.lt_log2_self.le
  have lower := Real.log_le_log (by positivity) least
  have upper := Real.log_le_log (by positivity) most
  rw [Real.log_pow] at lower upper
  have two : 0 < Real.log 2 := Real.log_pos one_lt_two
  have ten : Real.log 2 ≤ Real.log 10 := Real.log_le_log two_pos (by norm_num)
  have digits : |Real.log d.mantissa - d.mantissa.log2 * Real.log 2| ≤ Real.log 2 := by
    push_cast at upper
    rw [abs_of_nonneg (by linarith)]
    linarith
  rw [log_eq positive]
  calc _ ≤ Real.log 2 + |((d.exponent + d.mantissa.log2 : ℤ) : ℝ)| * Real.log 2 := by
        refine (abs_add_le _ _).trans (add_le_add digits ?_)
        rw [abs_mul, abs_of_pos two]
    _ = (1 + |(d.exponent + d.mantissa.log2 : ℤ)| : ℤ) * Real.log 2 := by
        push_cast
        ring
    _ ≤ _ := by
        refine mul_le_mul_of_nonneg_left ten ?_
        positivity

/-! ## Common logarithms -/

/-- A quotient of approximate numbers. -/
theorem abs_div_sub_div_le {a b x y α β γ : ℝ} (bPositive : 0 < b) (yPositive : 0 < y)
    (first : |a - x| ≤ α) (second : |b - y| ≤ β) (size : |x| ≤ γ * y) :
    |a / b - x / y| ≤ (α + γ * β) / b := by
  have split : a / b - x / y = ((a - x) - x / y * (b - y)) / b := by
    field_simp
    ring
  have ratio : |x / y| ≤ γ := by
    rwa [abs_div, abs_of_pos yPositive, div_le_iff₀ yPositive]
  rw [split, abs_div, abs_of_pos bPositive]
  refine div_le_div_of_nonneg_right ((abs_sub _ _).trans (add_le_add first ?_)) bPositive.le
  rw [abs_mul]
  exact mul_le_mul ratio second (abs_nonneg _) ((abs_nonneg _).trans ratio)

theorem two_pow_le_logTen : 2 ^ 160 ≤ logTen := by decide +kernel

/-- The quotient of the fixed-point logarithms is near to the common logarithm. -/
theorem abs_naturalLog_div_sub_le (positive : 0 < d.mantissa)
    (bounded : |d.exponent + d.mantissa.log2| ≤ 2000) :
    |(naturalLog d / logTen : ℝ) - Real.logb 10 (d.mantissa * 2 ^ d.exponent)| ≤ 1 / 2 ^ 100 := by
  have large : (2 : ℝ) ^ 160 ≤ logTen := by exact_mod_cast two_pow_le_logTen
  have scale : (0 : ℝ) < 2 ^ fixedBits := by positivity
  have ten : 0 < Real.log 10 := Real.log_pos (by norm_num)
  have factor : ((1 + |d.exponent + d.mantissa.log2| : ℤ) : ℝ) ≤ 2001 := by
    exact_mod_cast (by omega : 1 + |d.exponent + d.mantissa.log2| ≤ 2001)
  have first := (abs_naturalLog_sub_le positive).trans
    (mul_le_mul_of_nonneg_left factor (by norm_num))
  have size : |2 ^ fixedBits * Real.log (d.mantissa * 2 ^ d.exponent)| ≤
      2001 * (2 ^ fixedBits * Real.log 10) := by
    rw [abs_mul, abs_of_pos scale, mul_left_comm]
    exact mul_le_mul_of_nonneg_left ((abs_log_le positive).trans
      (mul_le_mul_of_nonneg_right factor ten.le)) scale.le
  have near := abs_div_sub_div_le ((by positivity : (0 : ℝ) < 2 ^ 160).trans_le large)
    (mul_pos scale ten) first logTen_truncates.abs_sub_le size
  rw [mul_div_mul_left _ _ scale.ne'] at near
  refine near.trans ?_
  calc (361 * 2001 + 2001 * 1444 : ℝ) / logTen ≤ (361 * 2001 + 2001 * 1444) / 2 ^ 160 := by gcongr
    _ ≤ 1 / 2 ^ 100 := by norm_num

/-- The quotient that is rounded to a common logarithm. -/
def scaledLog (d : Dyadic) : Nat :=
  ((naturalLog d).natAbs * 2 ^ 100 + logTen / 2) / logTen

/-- The number that is rounded to a common logarithm. -/
def roughLog (d : Dyadic) : Rat :=
  (if naturalLog d < 0 then -(scaledLog d : Rat) else scaledLog d) / 2 ^ 100

theorem abs_scaledLog_sub_le (d : Dyadic) :
    |(scaledLog d : ℝ) - |(naturalLog d : ℝ)| * 2 ^ 100 / logTen| ≤ 1 := by
  have positive : (0 : ℝ) < logTen := by exact_mod_cast two_pow_le_logTen.trans' (by norm_num)
  have quotient := (Truncates.exact ((naturalLog d).natAbs * 2 ^ 100 + logTen / 2)).div logTen
  have half : ((logTen / 2 : ℕ) : ℝ) / logTen ≤ 1 := by
    rw [div_le_one positive]
    exact_mod_cast Nat.div_le_self logTen 2
  have none : (0 : ℝ) ≤ ((logTen / 2 : ℕ) : ℝ) / logTen := by positivity
  have upper := quotient.le
  have lower := quotient.near
  rw [zero_div, zero_add] at lower
  push_cast [add_div, Nat.cast_natAbs, Int.cast_abs] at upper lower
  rw [abs_le, scaledLog]
  constructor <;> push_cast <;> linarith

theorem abs_roughLog_sub_le (d : Dyadic) :
    |(roughLog d : ℝ) - naturalLog d / logTen| ≤ 1 / 2 ^ 100 := by
  have scale : (0 : ℝ) < 2 ^ 100 := by positivity
  rw [le_div_iff₀ scale, ← abs_of_pos scale, ← abs_mul]
  refine (le_of_eq ?_).trans (abs_scaledLog_sub_le d)
  rw [roughLog]
  split
  next negative =>
    rw [abs_of_neg (Int.cast_lt_zero.mpr negative), ← abs_neg]
    congr 1
    push_cast
    field_simp
    ring
  next nonneg =>
    rw [abs_of_nonneg (Int.cast_nonneg (Int.not_lt.mp nonneg))]
    congr 1
    push_cast
    field_simp

theorem abs_roughLog (d : Dyadic) : |roughLog d| = scaledLog d / 2 ^ 100 := by
  rw [roughLog, abs_div, abs_of_pos (by positivity : (0 : Rat) < 2 ^ 100)]
  split
  next => rw [abs_neg, Nat.abs_cast]
  next => rw [Nat.abs_cast]

/-- The common logarithm of a double is moderate. -/
theorem abs_logb_le (positive : 0 < d.mantissa)
    (bounded : |d.exponent + d.mantissa.log2| ≤ 2000) :
    |Real.logb 10 (d.mantissa * 2 ^ d.exponent)| ≤ 2001 := by
  have ten : 0 < Real.log 10 := Real.log_pos (by norm_num)
  rw [Real.logb, abs_div, abs_of_pos ten, div_le_iff₀ ten]
  refine (abs_log_le positive).trans (mul_le_mul_of_nonneg_right ?_ ten.le)
  exact_mod_cast (by omega : 1 + |d.exponent + d.mantissa.log2| ≤ 2001)

/-- The position of a quotient of natural numbers. -/
theorem position_div {num den : Nat} (positive : 0 < den) :
    position (num / den) = nearestPattern num den := by
  have nonneg : (0 : Rat) ≤ num / den := by positivity
  rw [position, if_neg (Int.not_lt.mpr (Rat.num_nonneg.mpr nonneg))]
  congr 1
  apply nearestPattern_congr (Rat.den_pos _) positive
  rw [abs_num_div_den, abs_of_nonneg nonneg]

theorem toRat?_ofRatio (negative : Bool) {num den : Nat} (positive : 0 < den)
    (small : (num / den : Rat) < overflowThreshold) : toRat? (ofRatio negative num den) =
      some (valueAt (position (if negative then -(num / den) else num / den))) := by
  rw [ofRatio, toRat?_ofPattern _ ((nearestPattern_lt_iff positive).mpr small)]
  cases negative with
  | false => simp [position_div positive]
  | true => simp [position_div positive]

theorem log10Dyadic_eq (d : Dyadic) :
    log10Dyadic d = ofRatio (naturalLog d < 0) (scaledLog d) (2 ^ 100) := rfl

/-- The common logarithm of a dyadic number is the double nearest to a number that is near to the
true logarithm. -/
theorem log10Dyadic_near (positive : 0 < d.mantissa)
    (bounded : |d.exponent + d.mantissa.log2| ≤ 2000) :
    toRat? (log10Dyadic d) = some (valueAt (position (roughLog d))) ∧
      |(roughLog d : ℝ) - Real.logb 10 (d.mantissa * 2 ^ d.exponent)| ≤ 1 / 2 ^ 99 := by
  have near : |(roughLog d : ℝ) - Real.logb 10 (d.mantissa * 2 ^ d.exponent)| ≤ 1 / 2 ^ 99 := by
    refine (abs_sub_le _ (naturalLog d / logTen : ℝ) _).trans ((add_le_add
      (abs_roughLog_sub_le d) (abs_naturalLog_div_sub_le positive bounded)).trans ?_)
    norm_num
  refine ⟨?_, near⟩
  have power : ((2 ^ 100 : ℕ) : Rat) = 2 ^ 100 := by rw [Nat.cast_pow, Nat.cast_ofNat]
  have small : (scaledLog d / (2 ^ 100 : ℕ) : Rat) < overflowThreshold := by
    have moderate : |(roughLog d : ℝ)| ≤ 2002 := by
      have triangle := abs_sub_abs_le_abs_sub (roughLog d : ℝ)
        (Real.logb 10 (d.mantissa * 2 ^ d.exponent))
      have size := abs_logb_le positive bounded
      have unit : (1 / 2 ^ 99 : ℝ) ≤ 1 := by norm_num
      linarith
    have limit : ((2 ^ 11 : ℕ) : Rat) < overflowThreshold := Nat.cast_lt.mpr
      (two_pow_lt_overflowThreshold (by decide))
    rw [power, ← abs_roughLog]
    refine lt_of_le_of_lt ?_ limit
    exact (by exact_mod_cast moderate : |roughLog d| ≤ 2002).trans (by norm_num)
  rw [log10Dyadic_eq, toRat?_ofRatio _ (Nat.two_pow_pos 100) small, roughLog, power]
  simp only [decide_eq_true_eq, ite_div, neg_div]

/-! ## Doubles -/

/-- The exponents of doubles. -/
theorem exponent_of_dyadic? {x : Float} (form : dyadic? x = some d) :
    |d.exponent + d.mantissa.log2| ≤ 2000 := by
  have moderate : ∀ d : Dyadic, d.mantissa < 2 ^ 53 → -1074 ≤ d.exponent → d.exponent ≤ 971 →
      |d.exponent + d.mantissa.log2| ≤ 2000 := by
    intro d mantissa lower upper
    have digits : d.mantissa.log2 < 53 := by
      rcases Nat.eq_zero_or_pos d.mantissa with zero | positive
      · rw [zero]
        decide
      · exact (Nat.log2_lt positive.ne').mpr mantissa
    rw [abs_le]
    omega
  have fraction : x.toBits.toNat % Nat.pow 2 52 < 2 ^ 52 := mantissaField_lt x
  have field : x.toBits.toNat / Nat.pow 2 52 % Nat.pow 2 11 < 2048 := exponentField_lt x
  rw [dyadic?] at form
  split_ifs at form
  · cases form
    exact moderate _ (by dsimp only; omega) (by dsimp only; decide) (by dsimp only; decide)
  · cases form
    exact moderate _ (by dsimp only [Nat.pow_eq]; omega) (by dsimp only; omega)
      (by dsimp only; omega)

/-- The common logarithm of a positive double is the double nearest to a number that is near to the
true logarithm. -/
theorem log10_near {x : Float} {q : Rat} (value : toRat? x = some q) (positive : 0 < q) :
    ∃ z : Rat, toRat? (log10 x) = some (valueAt (position z)) ∧
      |(z : ℝ) - Real.logb 10 q| ≤ 1 / 2 ^ 99 := by
  rcases Option.map_eq_some_iff.mp value with ⟨d, form, rfl⟩
  have size : d.toRat = d.mantissa * 2 ^ d.exponent := by
    rw [Dyadic.toRat_eq] at positive ⊢
    split at positive
    next =>
      have nonneg : (0 : Rat) ≤ d.mantissa * 2 ^ d.exponent := by positivity
      linarith
    next unsigned => rw [if_neg unsigned]
  have mantissa : 0 < d.mantissa := by
    rw [size] at positive
    exact_mod_cast pos_of_mul_pos_left positive (by positivity)
  have near := log10Dyadic_near mantissa (exponent_of_dyadic? form)
  refine ⟨roughLog d, ?_, ?_⟩
  · rw [log10, form]
    exact near.1
  · rw [size]
    push_cast
    exact near.2

/-! ## Powers of ten -/

theorem log_ten_lower : 2.07 ≤ Real.log 10 := by
  have two := Real.log_two_gt_d9
  have eight : Real.log (2 ^ 3) ≤ Real.log 10 := Real.log_le_log (by norm_num) (by norm_num)
  rw [Real.log_pow] at eight
  push_cast at eight
  linarith

/-- The doubles on either side of a number of digits are far enough from it for logarithms to be
rounded to it. -/
theorem position_beside : ∀ k : Nat, k < 309 →
    valueAt (position (k + 1 + 1 / 2 ^ 53)) = k + 1 ∧
      valueAt (position (k + 1 - 1 / 2 ^ 54)) = k + 1 := by
  decide +kernel

section PowersOfTen

variable {p q : Rat} {k : Nat}

/-- The logarithms of numbers that are near in proportion. -/
theorem abs_logb_sub_le_of_near (near : Near (1 / 2 ^ 53) p q) (positive : 0 < q) :
    |Real.logb 10 p - Real.logb 10 q| ≤ 0.49 / 2 ^ 53 := by
  have ten := log_ten_lower
  have divisor : (0 : ℝ) < q := Rat.cast_pos.mpr positive
  have upper : (p : ℝ) ≤ ((1 + 1 / 2 ^ 53) * q : Rat) := Rat.cast_le.mpr near.le
  have lower : ((1 - 1 / 2 ^ 53) * q : Rat) ≤ (p : ℝ) := Rat.cast_le.mpr near.ge
  push_cast at upper lower
  have dividend : (0 : ℝ) < p := lower.trans_lt' (mul_pos (by norm_num) divisor)
  have above := Real.log_le_log dividend upper
  have below := Real.log_le_log (mul_pos (by norm_num) divisor) lower
  rw [Real.log_mul (by norm_num) divisor.ne'] at above below
  have small := Real.log_le_sub_one_of_pos (by norm_num : (0 : ℝ) < 1 + 1 / 2 ^ 53)
  have small' := Real.one_sub_inv_le_log_of_pos (by norm_num : (0 : ℝ) < 1 - 1 / 2 ^ 53)
  rw [Real.logb, Real.logb, ← sub_div, abs_div, abs_of_pos (by linarith : 0 < Real.log 10),
    div_le_iff₀ (by linarith), abs_le]
  norm_num at small small' above below ⊢
  constructor <;> linarith

/-- What is hardly less than a number of digits is rounded to no less than it. -/
theorem le_ceil_position {z : Rat} (near : k - 1 / 2 ^ 54 ≤ z) (moderate : k < 309) :
    k ≤ (valueAt (position z)).ceil := by
  cases k with
  | zero =>
    -- a number below zero is not rounded up to it, but its ceiling is zero
    have above : (-1 / 2 : Rat) ≤ z := near.trans' (by norm_num)
    have rough := valueAt_strictMono.monotone (position_mono above)
    rw [neg_div, position_neg, valueAt_neg, valueAt_position_of_toRat? toRat?_half] at rough
    have ceiled : (-1 : Rat) < (valueAt (position z)).ceil := by
      linarith [rough.trans Rat.le_ceil]
    have nonneg : -1 < (valueAt (position z)).ceil := by exact_mod_cast ceiled
    exact_mod_cast Int.add_one_le_of_lt nonneg
  | succ k =>
    push_cast at near
    have reached := valueAt_strictMono.monotone (position_mono near)
    rw [(position_beside k (by omega)).2] at reached
    exact_mod_cast reached.trans Rat.le_ceil

/-- What is hardly more than a number of digits is rounded to no more than it. -/
theorem ceil_position_le {z : Rat} (near : z ≤ k + 1 + 1 / 2 ^ 53) (moderate : k < 309) :
    (valueAt (position z)).ceil ≤ k + 1 := by
  rw [Rat.ceil_le_iff]
  push_cast
  rw [← (position_beside k moderate).1]
  exact valueAt_strictMono.monotone (position_mono near)

/-- The number of digits before the point, less one, is the least integer that is at least the
logarithm, or it is one less. -/
theorem ceil_log10 {x : Float} (value : toRat? x = some p) (near : Near (1 / 2 ^ 53) p q)
    (large : 1 ≤ p) (lower : 10 ^ k ≤ q) (upper : q ≤ 10 ^ (k + 1)) (moderate : k < 309) :
    ∃ w, toRat? (log10 x) = some w ∧ k ≤ w.ceil ∧ w.ceil ≤ k + 1 := by
  have positive : 0 < q := lower.trans_lt' (by positivity)
  rcases log10_near value (one_pos.trans_le large) with ⟨z, rounded, close⟩
  rcases abs_le.mp close with ⟨closeBelow, closeAbove⟩
  rcases abs_le.mp (abs_logb_sub_le_of_near near positive) with ⟨below, above⟩
  have least : (k : ℝ) ≤ Real.logb 10 q := by
    rw [Real.le_logb_iff_rpow_le (by norm_num) (by exact_mod_cast positive), Real.rpow_natCast]
    exact_mod_cast lower
  have most : Real.logb 10 q ≤ ((k + 1 : ℕ) : ℝ) := by
    rw [Real.logb_le_iff_le_rpow (by norm_num) (by exact_mod_cast positive), Real.rpow_natCast]
    exact_mod_cast upper
  refine ⟨_, rounded, le_ceil_position ?_ moderate, ceil_position_le ?_ moderate⟩
  · rw [← Rat.cast_le (K := ℝ)]
    push_cast
    linarith
  · rw [← Rat.cast_le (K := ℝ)]
    push_cast at most ⊢
    linarith

end PowersOfTen

end ExactRoots.Binary64
