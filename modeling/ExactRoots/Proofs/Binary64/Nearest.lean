import ExactRoots.Proofs.Binary64.Sign
import ExactRoots.Proofs.Natural.Rounding

/-!
# Patterns of rounded quotients

Rounding to the nearest double never exchanges two numbers.  The pattern of a
quotient is a unit, which is a power of two, and a mantissa; a larger quotient has
a larger unit or the same unit and no smaller mantissa.  From a threshold on, the
pattern is that of infinity.
-/

namespace ExactRoots.Binary64

/-! ## Units -/

/-- The exponent of the leading binary digit of a quotient. -/
def leading (num den : Nat) : Int :=
  let estimate : Int := (num.log2 : Int) - den.log2
  if 0 ≤ estimate then
    if num < den <<< estimate.toNat then estimate - 1 else estimate
  else
    if num <<< (-estimate).toNat < den then estimate - 1 else estimate

/-- The exponent of the last binary digit that a double near a quotient has. -/
def unit (num den : Nat) : Int := max (leading num den - 52) (-1074)

/-- A quotient in units of a power of two, rounded. -/
def mantissa (unit : Int) (num den : Nat) : Nat :=
  if 0 ≤ unit then roundHalfEven num (den <<< unit.toNat)
  else roundHalfEven (num <<< (-unit).toNat) den

/-- A quotient in units of a power of two is a quotient again. -/
theorem exists_mantissa_eq (unit : Int) (num : Nat) {den : Nat} (positive : 0 < den) :
    ∃ n d : Nat, 0 < d ∧ (n / d : Rat) = num / den / 2 ^ unit ∧
      mantissa unit num den = roundHalfEven n d := by
  unfold mantissa
  split
  next above =>
    lift unit to Nat using above
    refine ⟨num, den <<< unit, ?_, ?_, rfl⟩
    · rw [Nat.shiftLeft_eq]
      positivity
    · rw [Nat.shiftLeft_eq, div_div]
      norm_cast
  next below =>
    obtain ⟨k, rfl⟩ : ∃ k : Nat, unit = -k := ⟨unit.natAbs, by omega⟩
    refine ⟨num <<< k, den, positive, ?_, by rw [neg_neg, Int.toNat_natCast]⟩
    rw [Nat.shiftLeft_eq, zpow_neg, div_inv_eq_mul, zpow_natCast, Nat.cast_mul, Nat.cast_pow,
      Nat.cast_ofNat, mul_div_right_comm]

section Quotients

variable {num den num' den' : Nat} (numPositive : 0 < num) (positive : 0 < den)
  (positive' : 0 < den')

include positive in
theorem abs_mantissa_sub_le (unit : Int) :
    |(mantissa unit num den : Rat) - num / den / 2 ^ unit| ≤ 1 / 2 := by
  rcases exists_mantissa_eq unit num positive with ⟨n, d, dPositive, quotient, rounded⟩
  rw [rounded, ← quotient]
  exact abs_roundHalfEven_sub_le n dPositive

include positive positive' in
theorem mantissa_mono (unit : Int) (below : (num / den : Rat) ≤ num' / den') :
    mantissa unit num den ≤ mantissa unit num' den' := by
  rcases exists_mantissa_eq unit num positive with ⟨n, d, dPositive, quotient, rounded⟩
  rcases exists_mantissa_eq unit num' positive' with ⟨n', d', dPositive', quotient', rounded'⟩
  rw [rounded, rounded']
  apply roundHalfEven_mono dPositive dPositive'
  rw [quotient, quotient']
  gcongr

include positive in
theorem mantissa_le {unit : Int} {k : Nat} (below : (num / den : Rat) ≤ k * 2 ^ unit) :
    mantissa unit num den ≤ k := by
  rcases exists_mantissa_eq unit num positive with ⟨n, d, dPositive, quotient, rounded⟩
  rw [rounded, ← roundHalfEven_one k]
  apply roundHalfEven_mono dPositive Nat.one_pos
  rwa [quotient, Nat.cast_one, div_one, div_le_iff₀ (by positivity)]

include positive in
theorem le_mantissa {unit : Int} {k : Nat} (above : (k * 2 ^ unit : Rat) ≤ num / den) :
    k ≤ mantissa unit num den := by
  rcases exists_mantissa_eq unit num positive with ⟨n, d, dPositive, quotient, rounded⟩
  rw [rounded]
  conv_lhs => rw [← roundHalfEven_one k]
  apply roundHalfEven_mono Nat.one_pos dPositive
  rwa [quotient, Nat.cast_one, div_one, le_div_iff₀ (by positivity)]

include positive in
theorem div_lt_two_zpow_iff {k : Int} : (num / den : Rat) < 2 ^ k ↔
    if 0 ≤ k then num < den <<< k.toNat else num <<< (-k).toNat < den := by
  rw [div_lt_iff₀ (Nat.cast_pos.mpr positive)]
  split
  next above =>
    lift k to Nat using above
    rw [Int.toNat_natCast, Nat.shiftLeft_eq, zpow_natCast, mul_comm]
    norm_cast
  next below =>
    obtain ⟨n, rfl⟩ : ∃ n : Nat, k = -n := ⟨k.natAbs, by omega⟩
    rw [neg_neg, Int.toNat_natCast, Nat.shiftLeft_eq, zpow_neg, zpow_natCast,
      lt_inv_mul_iff₀ (by positivity), mul_comm]
    norm_cast

include numPositive positive

/-- The difference of the lengths of numerator and denominator is the exponent of the leading
digit, or one more. -/
theorem log2_sub_spec :
    (2 : Rat) ^ ((num.log2 : Int) - den.log2 - 1) ≤ num / den ∧
      (num / den : Rat) < 2 ^ ((num.log2 : Int) - den.log2 + 1) := by
  have numLower : (2 ^ num.log2 : Rat) ≤ num := by
    exact_mod_cast Nat.log2_self_le numPositive.ne'
  have numUpper : (num : Rat) < 2 ^ (num.log2 + 1) := by
    exact_mod_cast Nat.lt_log2_self (n := num)
  have denLower : (2 ^ den.log2 : Rat) ≤ den := by
    exact_mod_cast Nat.log2_self_le positive.ne'
  have denUpper : (den : Rat) < 2 ^ (den.log2 + 1) := by
    exact_mod_cast Nat.lt_log2_self (n := den)
  have denPositive : (0 : Rat) < den := Nat.cast_pos.mpr positive
  constructor
  · calc (2 : Rat) ^ ((num.log2 : Int) - den.log2 - 1)
        = 2 ^ num.log2 / 2 ^ (den.log2 + 1) := by
          rw [sub_sub, zpow_sub₀ two_ne_zero]
          norm_cast
      _ ≤ num / den := by gcongr
  · calc (num / den : Rat)
        < 2 ^ (num.log2 + 1) / 2 ^ den.log2 := by gcongr
      _ = 2 ^ ((num.log2 : Int) - den.log2 + 1) := by
          rw [sub_add_eq_add_sub, zpow_sub₀ two_ne_zero]
          norm_cast

theorem leading_spec :
    (2 : Rat) ^ leading num den ≤ num / den ∧ (num / den : Rat) < 2 ^ (leading num den + 1) := by
  rcases log2_sub_spec numPositive positive with ⟨lower, upper⟩
  have compared : leading num den = if (num / den : Rat) < 2 ^ ((num.log2 : Int) - den.log2) then
      (num.log2 : Int) - den.log2 - 1 else (num.log2 : Int) - den.log2 := by
    simp only [div_lt_two_zpow_iff positive, leading]
    split <;> rfl
  rw [compared]
  split
  next below => exact ⟨lower, by rwa [sub_add_cancel]⟩
  next above => exact ⟨le_of_not_gt above, upper⟩

theorem unit_spec :
    -1074 ≤ unit num den ∧ (num / den : Rat) < 2 ^ (unit num den + 53) ∧
      (unit num den = -1074 ∨ (2 : Rat) ^ (unit num den + 52) ≤ num / den) := by
  rcases leading_spec numPositive positive with ⟨lower, upper⟩
  unfold unit
  rcases le_total (leading num den - 52) (-1074) with small | large
  · rw [max_eq_right small]
    refine ⟨le_rfl, upper.trans_le (zpow_le_zpow_right₀ one_le_two ?_), .inl rfl⟩
    omega
  · rw [max_eq_left large, sub_add_cancel]
    refine ⟨large, ?_, .inr lower⟩
    rwa [show leading num den - 52 + 53 = leading num den + 1 by ring]

theorem mantissa_unit_le : mantissa (unit num den) num den ≤ 2 ^ 53 := by
  apply mantissa_le positive
  rw [Nat.cast_pow, Nat.cast_ofNat, ← zpow_natCast, ← zpow_add₀ two_ne_zero, add_comm]
  exact (unit_spec numPositive positive).2.1.le

theorem le_mantissa_unit (normal : unit num den ≠ -1074) :
    2 ^ 52 ≤ mantissa (unit num den) num den := by
  apply le_mantissa positive
  rw [Nat.cast_pow, Nat.cast_ofNat, ← zpow_natCast, ← zpow_add₀ two_ne_zero, add_comm]
  exact (unit_spec numPositive positive).2.2.resolve_left normal

theorem nearestPattern_eq :
    nearestPattern num den = min infinityPattern
      ((unit num den + 1074).toNat * 2 ^ 52 + mantissa (unit num den) num den) := by
  have unfolded : nearestPattern num den = if num = 0 then 0 else
      if 971 < unit num den then infinityPattern else min infinityPattern
        ((unit num den + 1074).toNat * 2 ^ 52 + mantissa (unit num den) num den) := rfl
  rw [unfolded, if_neg numPositive.ne']
  split
  next beyond =>
    have long := le_mantissa_unit numPositive positive (by omega)
    rw [min_eq_left]
    rw [infinityPattern]
    omega
  next => rfl

end Quotients

/-! ## Patterns -/

theorem nearestPattern_zero (den : Nat) : nearestPattern 0 den = 0 := rfl

section Patterns

variable {num den num' den' : Nat} (positive : 0 < den) (positive' : 0 < den')

include positive positive'

/-- Rounding to the nearest double keeps the order of quotients. -/
theorem nearestPattern_mono (below : (num / den : Rat) ≤ num' / den') :
    nearestPattern num den ≤ nearestPattern num' den' := by
  rcases Nat.eq_zero_or_pos num with rfl | numPositive
  · rw [nearestPattern_zero]
    exact Nat.zero_le _
  have numPositive' : 0 < num' := by
    have quotient : (0 : Rat) < num / den := by positivity
    have quotient' := (div_pos_iff_of_pos_right (by positivity)).mp (quotient.trans_le below)
    exact_mod_cast quotient'
  rw [nearestPattern_eq numPositive positive, nearestPattern_eq numPositive' positive']
  rcases unit_spec numPositive positive with ⟨least, upper, lower⟩
  rcases unit_spec numPositive' positive' with ⟨least', upper', lower'⟩
  have short := mantissa_unit_le numPositive positive
  have long := le_mantissa_unit numPositive' positive'
  apply min_le_min_left
  generalize unit num den = u at *
  generalize unit num' den' = u' at *
  rcases lt_trichotomy u u' with less | rfl | greater
  · -- a larger unit makes up for any difference of the mantissas
    have long := long (by omega)
    omega
  · exact Nat.add_le_add_left (mantissa_mono positive positive' u below) _
  · have apart : (2 : Rat) ^ (u' + 53) ≤ 2 ^ (u + 52) :=
      zpow_le_zpow_right₀ one_le_two (by omega)
    have above := lower.resolve_left (by omega)
    exact absurd (below.trans_lt upper') (not_lt_of_ge (apart.trans above))

end Patterns

/-- The least number that is rounded to infinity. -/
def overflowThreshold : Nat := (2 ^ 54 - 1) * 2 ^ 970

theorem cast_overflowThreshold :
    (overflowThreshold : Rat) = (2 ^ 53 - 1 / 2) * 2 ^ (971 : Int) := by
  have powers : (2 : Rat) ^ (971 : Int) = 2 * 2 ^ 970 := by
    rw [show (971 : Int) = (970 : Nat) + 1 from rfl, zpow_add₀ two_ne_zero, zpow_natCast,
      zpow_one, mul_comm]
  rw [overflowThreshold, Nat.cast_mul, Nat.cast_pow, Nat.cast_ofNat, powers]
  generalize (2 : Rat) ^ 970 = power
  norm_num
  ring

theorem two_pow_le_overflowThreshold : 2 ^ 1023 ≤ overflowThreshold := by
  rw [overflowThreshold, show 1023 = 53 + 970 from rfl, pow_add]
  exact Nat.mul_le_mul_right _ (by decide)

theorem two_pow_lt_overflowThreshold {n : Nat} (small : n < 1023) : 2 ^ n < overflowThreshold :=
  (pow_lt_pow_right₀ one_lt_two small).trans_le two_pow_le_overflowThreshold

theorem overflowThreshold_pos : 0 < overflowThreshold :=
  (Nat.two_pow_pos _).trans_le two_pow_le_overflowThreshold

theorem one_lt_overflowThreshold : (1 : Rat) < overflowThreshold :=
  Nat.one_lt_cast.mpr ((Nat.one_lt_two_pow (by decide)).trans_le two_pow_le_overflowThreshold)

/-- A quotient has a finite double next to it exactly when it is below the threshold. -/
theorem nearestPattern_lt_iff {num den : Nat} (positive : 0 < den) :
    nearestPattern num den < infinityPattern ↔ (num / den : Rat) < overflowThreshold := by
  constructor
  · contrapose!
    intro beyond
    have threshold : nearestPattern overflowThreshold 1 = infinityPattern := by decide +kernel
    rw [← threshold]
    apply nearestPattern_mono Nat.one_pos positive
    simpa only [Nat.cast_one, div_one] using beyond
  · intro below
    rcases Nat.eq_zero_or_pos num with rfl | numPositive
    · rw [nearestPattern_zero]
      decide
    rw [nearestPattern_eq numPositive positive, min_lt_iff]
    right
    rw [cast_overflowThreshold] at below
    rcases unit_spec numPositive positive with ⟨least, -, lower⟩
    have short := mantissa_unit_le numPositive positive
    have near := @abs_mantissa_sub_le num den positive (unit num den)
    generalize unit num den = u at *
    rcases lt_trichotomy u 971 with small | rfl | large
    · rw [infinityPattern]
      omega
    · have size : (num / den : Rat) / 2 ^ (971 : Int) < 2 ^ 53 - 1 / 2 := by
        rwa [div_lt_iff₀ (by positivity)]
      have shorter : (mantissa 971 num den : Rat) < (2 ^ 53 : Nat) := by
        rw [Nat.cast_pow, Nat.cast_ofNat]
        linarith [(abs_le.mp near).2]
      have shorter := Nat.cast_lt.mp shorter
      rw [infinityPattern]
      omega
    · have above := lower.resolve_left (by omega)
      have apart : (2 : Rat) ^ (53 + 971 : Int) ≤ 2 ^ (u + 52) :=
        zpow_le_zpow_right₀ one_le_two (by omega)
      rw [zpow_add₀ two_ne_zero] at apart
      have beyond := (apart.trans above).trans_lt below
      have contradictory := lt_of_mul_lt_mul_right beyond (by positivity)
      norm_num at contradictory

-- The threshold is a large power, which no simplification should evaluate.
attribute [irreducible] overflowThreshold

end ExactRoots.Binary64
