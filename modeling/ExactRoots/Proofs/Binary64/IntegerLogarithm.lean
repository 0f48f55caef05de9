import ExactRoots.Proofs.Binary64.Comparison
import ExactRoots.Proofs.Binary64.Integer
import ExactRoots.Proofs.Binary64.Logarithm
import ExactRoots.Proofs.Binary64.Zero

/-!
# Logarithms of large integers

The common logarithm of an integer that is too large for a double is computed from its leading
digits and its binary length.  It is near to the true logarithm in proportion.
-/

namespace ExactRoots.Binary64

variable {x y : Float} {p q : Rat}

/-- The double nearest to a number that is too large has no value. -/
theorem toRat?_ofRat_of_large (large : overflowThreshold ≤ |q|) : toRat? (ofRat q) = none := by
  rw [Option.eq_none_iff_forall_ne_some]
  intro p value
  have place := place?_of_toRat? value
  rw [place?_ofRat, Option.some.injEq] at place
  have positions := Place.ofPosition_strictMonoOn.injOn (position_mem q) (position_mem p) place
  have small := natAbs_position_lt_iff.mpr (exists_position_of_toRat? value).1
  rw [← positions, natAbs_position_lt_iff] at small
  exact not_lt_of_ge large small

/-- The logarithm of a natural number that has a finite double is that of the double. -/
theorem log10Nat_of_toRat? {n : Nat} (value : toRat? (ofInt n) = some q) :
    log10Nat n = log10 (ofInt n) := by
  rcases Option.map_eq_some_iff.mp value with ⟨d, form, -⟩
  rw [log10Nat, log10, form]

/-- The leading digits of a natural number, rounded to a double, and its binary length. -/
theorem near_leading {n : Nat} (positive : 0 < n) :
    ∃ f : Rat, toRat? (ofRatio false n (2 ^ (n.log2 + 1))) = some f ∧ 1 / 2 ≤ f ∧ f ≤ 1 ∧
      Near (1 / 2 ^ 53) (f * 2 ^ (n.log2 + 1)) n := by
  have power : (0 : Rat) < 2 ^ (n.log2 + 1) := by positivity
  have lower : (1 / 2 : Rat) ≤ n / (2 ^ (n.log2 + 1) : Nat) := by
    have least : ((2 ^ n.log2 : Nat) : Rat) ≤ n := Nat.cast_le.mpr (Nat.log2_self_le positive.ne')
    rw [Nat.cast_pow, Nat.cast_ofNat] at least ⊢
    rw [le_div_iff₀ power, pow_succ]
    linarith
  have upper : (n / (2 ^ (n.log2 + 1) : Nat) : Rat) ≤ 1 := by
    rw [div_le_one (Nat.cast_pos.mpr (Nat.two_pow_pos _))]
    exact Nat.cast_le.mpr Nat.lt_log2_self.le
  have small : (n / (2 ^ (n.log2 + 1) : Nat) : Rat) < overflowThreshold :=
    upper.trans_lt one_lt_overflowThreshold
  have normal : (2 : Rat) ^ (-1022 : Int) ≤ 1 / 2 := by
    rw [show (1 / 2 : Rat) = 2 ^ (-1 : Int) by norm_num]
    exact zpow_le_zpow_right₀ one_le_two (by decide)
  have near := (near_position (lower.trans_lt' (by norm_num)) small (normal.trans lower)).scale
    power.le
  refine ⟨_, toRat?_ofRatio false (Nat.two_pow_pos _) small, ?_, ?_, ?_⟩
  · rw [← valueAt_position_of_toRat? toRat?_half]
    exact valueAt_strictMono.monotone (position_mono lower)
  · rw [← valueAt_position_of_toRat? toRat?_one]
    exact valueAt_strictMono.monotone (position_mono upper)
  · rw [Nat.cast_pow, Nat.cast_ofNat] at near ⊢
    rwa [div_mul_cancel₀ _ power.ne'] at near

/-- The logarithm of an integer that is too large for a double is computed from its leading digits
and its binary length. -/
theorem log10Nat_of_large {n : Nat} (large : overflowThreshold ≤ n) :
    ∃ (x : Float) (f : Rat) (power : Nat), toRat? x = some f ∧ 1 / 2 ≤ f ∧ f ≤ 1 ∧
      0 < power ∧ power ≤ n.log2 + 2 ∧ Near (1 / 2 ^ 53) (f * 2 ^ power) n ∧
      log10Nat n = log10 x + log10Dyadic ⟨false, 2, 0⟩ * ofInt power := by
  have positive : 0 < n := overflowThreshold_pos.trans_le large
  have unbounded : dyadic? (ofInt n) = none := by
    have none := @toRat?_ofRat_of_large n (by simpa using large)
    rw [toRat?, Option.map_eq_none_iff] at none
    exact none
  rcases near_leading positive with ⟨f, value, lower, upper, near⟩
  by_cases carried : (ofRatio false n (2 ^ (n.log2 + 1)) == 1.0) = true
  · -- the digits were rounded up to one, and count as one half at the next length
    obtain rfl := Option.some.inj (value.symm.trans (toRat?_of_beq carried toRat?_one))
    refine ⟨0.5, 1 / 2, n.log2 + 2, toRat?_half, by norm_num, by norm_num, by omega, le_rfl, ?_, ?_⟩
    · convert near using 1
      ring
    · rw [log10Nat, unbounded]
      simp only [Nat.pow_eq, if_pos carried]
      rfl
  · refine ⟨_, f, n.log2 + 1, value, lower, upper, by omega, by omega, near, ?_⟩
    rcases Option.map_eq_some_iff.mp value with ⟨d, form, -⟩
    rw [log10Nat, unbounded, log10, form]
    simp only [Nat.pow_eq, if_neg carried, form]

/-! ## Errors -/

theorem logb_two_bounds : 3 / 10 ≤ Real.logb 10 2 ∧ Real.logb 10 2 ≤ 1 / 3 := by
  have ten : 0 < Real.log 10 := Real.log_pos (by norm_num)
  have lower : Real.log (10 ^ 3) ≤ Real.log (2 ^ 10) := Real.log_le_log (by norm_num) (by norm_num)
  have upper : Real.log (2 ^ 3) ≤ Real.log 10 := Real.log_le_log (by norm_num) (by norm_num)
  rw [Real.log_pow, Real.log_pow] at lower
  rw [Real.log_pow] at upper
  push_cast at lower upper
  rw [Real.logb, le_div_iff₀ ten, div_le_iff₀ ten]
  constructor <;> linarith

/-- A logarithm of moderate size is rounded with a small error. -/
theorem abs_rounded_sub_le {z : Rat} {l : ℝ} (close : |(z : ℝ) - l| ≤ 1 / 2 ^ 99)
    (moderate : |l| ≤ 0.49) : |(valueAt (position z) : ℝ) - l| ≤ 0.51 * (1 / 2 ^ 53) := by
  have size : |z| ≤ 1 / 2 := by
    rw [← Rat.cast_le (K := ℝ)]
    push_cast
    have triangle := abs_sub_abs_le_abs_sub (z : ℝ) l
    linarith
  have small : |z| < overflowThreshold :=
    (size.trans (by norm_num)).trans_lt one_lt_overflowThreshold
  have rounded : |valueAt (position z) - z| ≤ 1 / 2 ^ 54 := by
    refine (abs_valueAt_position_sub_le small).trans (max_le ?_ ?_)
    · rw [div_le_iff₀ (by norm_num)]
      exact size.trans (by norm_num)
    · rw [← zpow_natCast, one_div, ← zpow_neg]
      exact zpow_le_zpow_right₀ one_le_two (by decide)
  have real : |(valueAt (position z) : ℝ) - z| ≤ 1 / 2 ^ 54 := by
    have cast : ((|valueAt (position z) - z| : ℚ) : ℝ) ≤ ((1 / 2 ^ 54 : ℚ) : ℝ) :=
      Rat.cast_le.mpr rounded
    push_cast at cast
    exact cast
  have total := abs_sub_le (valueAt (position z) : ℝ) z l
  linarith

section Errors

variable {β b p P R φ A L l u : ℝ} (some : 0 ≤ u) (tiny : u ≤ 1 / 1000) (βLower : 3 / 10 ≤ β)
  (positive : 0 ≤ p)

include some tiny βLower positive

/-- The error of the product of the length and the logarithm of two. -/
theorem product_error (factor : |b - β| ≤ 0.51 * u) (power : |P - p| ≤ u * p)
    (product : |R - b * P| ≤ u * (b * P)) : |R - p * β| ≤ 3.72 * u * (p * β) := by
  have share : 0 ≤ p * β := mul_nonneg positive (by linarith)
  have PNonneg : 0 ≤ P := by nlinarith [(abs_le.mp power).1]
  have PUpper : P ≤ 1.001 * p := by nlinarith [(abs_le.mp power).2]
  have multiplied : |b * P - p * β| ≤ 2.71 * u * (p * β) := by
    calc |b * P - p * β| = |(b - β) * P + β * (P - p)| := by ring_nf
      _ ≤ |b - β| * P + β * |P - p| := by
        refine (abs_add_le _ _).trans_eq ?_
        rw [abs_mul, abs_mul, abs_of_nonneg PNonneg, abs_of_nonneg (by linarith : 0 ≤ β)]
      _ ≤ 1.7 * u * β * (1.001 * p) + β * (u * p) := by
        gcongr
        nlinarith
      _ ≤ 2.71 * u * (p * β) := by nlinarith [mul_nonneg some share]
  have upper : b * P ≤ 1.003 * (p * β) := by nlinarith [(abs_le.mp multiplied).2]
  calc |R - p * β| ≤ |R - b * P| + |b * P - p * β| := abs_sub_le _ _ _
    _ ≤ u * (1.003 * (p * β)) + 2.71 * u * (p * β) :=
      add_le_add (product.trans (mul_le_mul_of_nonneg_left upper some)) multiplied
    _ ≤ 3.72 * u * (p * β) := by nlinarith [mul_nonneg some share]

/-- The error of the logarithm of a large integer. -/
theorem sum_error (φLower : -1 ≤ φ) (φUpper : φ ≤ 0) (large : 300 ≤ l)
    (product : |R - p * β| ≤ 3.72 * u * (p * β)) (leading : |A - φ| ≤ 0.51 * u)
    (sum : |L - (A + R)| ≤ u * (A + R)) (size : |φ + p * β - l| ≤ 0.49 * u) :
    |L - l| ≤ 8 * u * l := by
  have share : 0 ≤ p * β := mul_nonneg positive (by linarith)
  generalize p * β = m at *
  have upper : A + R ≤ 1.01 * m + 1 := by
    nlinarith [(abs_le.mp product).2, (abs_le.mp leading).2]
  have most : m ≤ l + 2 := by linarith [(abs_le.mp size).2]
  calc |L - l| ≤ |L - (A + R)| + |A + R - l| := abs_sub_le _ _ _
    _ ≤ u * (1.01 * m + 1) + (0.51 * u + 3.72 * u * m + 0.49 * u) := by
      refine add_le_add (sum.trans (mul_le_mul_of_nonneg_left upper some)) ?_
      have split : A + R - l = (A - φ) + (R - m) + (φ + m - l) := by ring
      rw [split]
      exact (abs_add_le _ _).trans
        (add_le_add ((abs_add_le _ _).trans (add_le_add leading product)) size)
    _ ≤ 8 * u * l := by nlinarith

end Errors

theorem near_cast (near : Near (1 / 2 ^ 53) p q) : |(p : ℝ) - q| ≤ 1 / 2 ^ 53 * q := by
  have real : ((|p - q| : ℚ) : ℝ) ≤ ((1 / 2 ^ 53 * q : ℚ) : ℝ) := Rat.cast_le.mpr near
  push_cast at real
  exact real

/-- The logarithm of an integer that is too large for a double is beyond three hundred. -/
theorem large_logb {n : Nat} (large : overflowThreshold ≤ n) : 300 ≤ Real.logb 10 n := by
  have power : ((2 ^ 1023 : Nat) : ℝ) ≤ n := Nat.cast_le.mpr (two_pow_le_overflowThreshold.trans large)
  rw [Nat.cast_pow, Nat.cast_ofNat] at power
  have logs := Real.logb_le_logb_of_le (by norm_num : (1 : ℝ) < 10) (by positivity) power
  rw [Real.logb_pow] at logs
  have two := logb_two_bounds.1
  push_cast at logs
  linarith

/-- The logarithms of leading digits. -/
theorem leading_logb {f : Rat} (lower : 1 / 2 ≤ f) (upper : f ≤ 1) :
    -(1 / 3) ≤ Real.logb 10 f ∧ Real.logb 10 f ≤ 0 := by
  have positive : (0 : ℝ) < f := by exact_mod_cast lower.trans_lt' (by norm_num)
  constructor
  · have half : ((1 / 2 : ℚ) : ℝ) ≤ f := Rat.cast_le.mpr lower
    push_cast at half
    have logs := Real.logb_le_logb_of_le (by norm_num : (1 : ℝ) < 10) (by norm_num) half
    rw [Real.logb_div one_ne_zero two_ne_zero, Real.logb_one] at logs
    linarith [logb_two_bounds.2]
  · exact Real.logb_nonpos (by norm_num) positive.le (by exact_mod_cast upper)

/-- The logarithm of a number in the shares of its leading digits and its binary length. -/
theorem abs_logb_shares_sub_le {n power : Nat} {f : Rat} (positive : 0 < f) (natural : 0 < n)
    (near : Near (1 / 2 ^ 53) (f * 2 ^ power) n) :
    |Real.logb 10 f + power * Real.logb 10 2 - Real.logb 10 n| ≤ 0.49 * (1 / 2 ^ 53) := by
  have proportion := abs_logb_sub_le_of_near near (Nat.cast_pos.mpr natural)
  push_cast at proportion
  rw [Real.logb_mul (by exact_mod_cast positive.ne') (by positivity), Real.logb_pow] at proportion
  exact proportion.trans_eq (by ring)

/-- The double nearest to a number that is at least `1 / 4`. -/
theorem exists_near (place : place? x = some (.ofPosition (position q))) (normal : 1 / 4 ≤ q)
    (small : q < overflowThreshold) : ∃ r, toRat? x = some r ∧ Near (1 / 2 ^ 53) r q := by
  have positive : 0 < q := normal.trans_lt' (by norm_num)
  have least : (2 : Rat) ^ (-1022 : Int) ≤ 1 / 4 := by
    rw [show (1 / 4 : Rat) = 2 ^ (-2 : Int) by norm_num]
    exact zpow_le_zpow_right₀ one_le_two (by decide)
  refine ⟨_, toRat?_of_place? place ?_, near_position positive small (least.trans normal)⟩
  rwa [natAbs_position_lt_iff, abs_of_pos positive]

/-- The double nearest to the common logarithm of two. -/
theorem exists_near_logTwo : ∃ b, toRat? (log10Dyadic ⟨false, 2, 0⟩) = some b ∧
    |(b : ℝ) - Real.logb 10 2| ≤ 0.51 * (1 / 2 ^ 53) := by
  have near := @log10Dyadic_near ⟨false, 2, 0⟩ (by decide) (by decide)
  have two : Real.logb 10 ((2 : ℕ) * 2 ^ (0 : ℤ)) = Real.logb 10 2 := by norm_num
  rcases logb_two_bounds with ⟨lower, upper⟩
  dsimp only at near
  rw [two] at near
  exact ⟨_, near.1, abs_rounded_sub_le near.2 (by rw [abs_of_nonneg] <;> linarith)⟩

/-- The share of the binary length in the logarithm: the length times the logarithm of two, where
the length is rounded to a double. -/
theorem exists_share {power : Nat} (many : 897 ≤ power) (small : power < overflowThreshold) :
    ∃ R P : Rat, toRat? (log10Dyadic ⟨false, 2, 0⟩ * ofInt power) = some R ∧
      |(R : ℝ) - power * Real.logb 10 2| ≤ 3.72 * (1 / 2 ^ 53) * (power * Real.logb 10 2) ∧
      R ≤ 0.35 * P ∧ 800 ≤ P ∧ P < overflowThreshold := by
  rcases logb_two_bounds with ⟨βLower, βUpper⟩
  rcases exists_near_logTwo with ⟨b, factorValue, factor⟩
  have bBounds : 0.29 ≤ b ∧ b ≤ 0.34 := by
    rw [← Rat.cast_le (K := ℝ), ← Rat.cast_le (K := ℝ)]
    push_cast
    constructor <;> linarith [abs_le.mp factor]
  have many : (897 : Rat) ≤ power := by exact_mod_cast many
  have placed : place? (ofInt power) = some (.ofPosition (position power)) := by
    rw [ofInt_eq, place?_ofRat, Int.cast_natCast]
  rcases exists_near placed (many.trans' (by norm_num)) (Nat.cast_lt.mpr small) with
    ⟨P, powerValue, powerNear⟩
  have PSmall := (abs_lt.mp (exists_position_of_toRat? powerValue).1).2
  have PLower : 800 ≤ P := powerNear.ge.trans' (by linarith)
  have productLower : 0.29 * 800 ≤ b * P := mul_le_mul bBounds.1 PLower (by norm_num) (by linarith)
  have productUpper : b * P ≤ 0.34 * P := mul_le_mul_of_nonneg_right bBounds.2 (by linarith)
  rcases exists_near (place?_mul factorValue powerValue) (productLower.trans' (by norm_num))
    (by linarith) with ⟨R, productValue, product⟩
  have powerError := near_cast powerNear
  have productError := near_cast product
  push_cast at powerError productError
  have scaled := product_error (by positivity) (by norm_num) βLower (Nat.cast_nonneg power) factor
    powerError productError
  exact ⟨R, P, productValue, scaled, product.le.trans (by linarith), PLower, PSmall⟩

/-- The common logarithm of an integer that is too large for a double is near to the true one in
proportion. -/
theorem log10Nat_near {n : Nat} (large : overflowThreshold ≤ n)
    (bounded : n.log2 + 2 < overflowThreshold) :
    ∃ w : Rat, toRat? (log10Nat n) = some w ∧
      |(w : ℝ) - Real.logb 10 n| ≤ 1 / 2 ^ 50 * Real.logb 10 n := by
  rcases log10Nat_of_large large with
    ⟨x, f, power, value, lower, upper, positive, short, near, computed⟩
  rcases log10_near value (lower.trans_lt' (by norm_num)) with ⟨z, leadingValue, close⟩
  rcases leading_logb lower upper with ⟨φLower, φUpper⟩
  have leading := abs_rounded_sub_le close (by rw [abs_of_nonpos φUpper]; linarith)
  rcases logb_two_bounds with ⟨βLower, βUpper⟩
  have total := large_logb large
  have size := abs_logb_shares_sub_le (lower.trans_lt' (by norm_num))
    (overflowThreshold_pos.trans_le large) near
  have share : 299 ≤ power * Real.logb 10 2 := by linarith [(abs_le.mp size).1]
  have third := mul_le_mul_of_nonneg_left βUpper (Nat.cast_nonneg power : (0 : ℝ) ≤ power)
  have many : (897 : ℝ) ≤ power := by linarith
  rcases exists_share (by exact_mod_cast many) (short.trans_lt bounded) with
    ⟨R, P, productValue, scaled, RUpper, PLower, PSmall⟩
  have sumBounds : 1 / 4 ≤ valueAt (position z) + R ∧ valueAt (position z) ≤ 1 := by
    have rough := scaled.trans (mul_le_mul_of_nonneg_right
      (by norm_num : (3.72 * (1 / 2 ^ 53) : ℝ) ≤ 0.01) (by linarith))
    rw [← Rat.cast_le (K := ℝ), ← Rat.cast_le (K := ℝ)]
    push_cast
    constructor <;> linarith [abs_le.mp leading, abs_le.mp rough]
  rcases exists_near (place?_add leadingValue productValue) sumBounds.1 (by linarith) with
    ⟨L, sumValue, sum⟩
  have sumError := near_cast sum
  push_cast at sumError
  have error := sum_error (by positivity) (by norm_num) βLower (Nat.cast_nonneg power)
    (by linarith) φUpper total scaled leading sumError size
  rw [computed]
  exact ⟨L, sumValue, error.trans_eq (by ring)⟩

end ExactRoots.Binary64
