import ExactRoots.Decimal.Arithmetic
import ExactRoots.Proofs.Natural.DecimalLength
import ExactRoots.Proofs.Natural.Rounding
import ExactRoots.Proofs.Proportion
import ExactRoots.Proofs.Value.SquareRoot
import Mathlib.Algebra.Order.Field.Power
import Mathlib.Algebra.Order.Floor.Semifield
import Mathlib.Data.Nat.Cast.Order.Field
import Mathlib.Data.Rat.Floor
import Mathlib.Tactic.NormNum
import Mathlib.Tactic.Positivity

/-!
# The accuracy of decimal roots and quotients

The root of an integer and the quotient of two decimals are near in proportion to what
they stand for.  The bounds count the two steps of a computation, which are cutting off
the digits that are not asked for and rounding to those that are; they are not sharp.
-/

namespace ExactRoots.Decimal

/-! ## Rounding -/

section Fit

variable {digits keep : Nat} {exponent : Int} {negative : Bool}

/-- The place of the first digit of a number is told by its size. -/
theorem place_of_size {a b : Int} (positive : 0 < digits) (moderate : digits.log2 ≤ mostLength)
    (lower : (10 : Rat) ^ a ≤ digits * 10 ^ exponent)
    (upper : (digits * 10 ^ exponent : Rat) < 10 ^ b) :
    a < exponent + decimalLength digits ∧ exponent + decimalLength digits ≤ b := by
  have power : (0 : Rat) < 10 ^ exponent := by positivity
  have length := decimalLength_pos positive
  have ordered : ∀ {i j : Int}, (10 : Rat) ^ i < 10 ^ j → i < j :=
    (zpow_lt_zpow_iff_right₀ (by norm_num)).mp
  have below : (digits * 10 ^ exponent : Rat) < 10 ^ (exponent + decimalLength digits) := by
    rw [zpow_add₀ (by norm_num), mul_comm, zpow_natCast]
    exact mul_lt_mul_of_pos_left (by exact_mod_cast lt_ten_pow_decimalLength moderate) power
  have above : (10 : Rat) ^ (exponent + (decimalLength digits - 1 : Nat)) ≤
      digits * 10 ^ exponent := by
    rw [zpow_add₀ (by norm_num), mul_comm (digits : Rat), zpow_natCast]
    exact mul_le_mul_of_nonneg_left (by exact_mod_cast ten_pow_le_of_decimalLength positive) power.le
  have first := ordered (lower.trans_lt below)
  have last := ordered (above.trans_lt upper)
  omega

/-- Cutting off some of the digits moves a number by half a unit of the last one left. -/
theorem roundHalfEven_digits {cut : Nat} (some : 0 < keep)
    (above : 10 ^ cut * 10 ^ (keep - 1) ≤ digits) (below : digits < 10 ^ cut * 10 ^ keep) :
    0 < roundHalfEven digits (10 ^ cut) ∧ roundHalfEven digits (10 ^ cut) ≤ 10 ^ keep ∧
      Near (5 / 10 ^ keep) (roundHalfEven digits (10 ^ cut) * 10 ^ cut) digits := by
  have ten : 0 < 10 ^ cut := by positivity
  have unit : 0 < 10 ^ (keep - 1) := by positivity
  rcases roundHalfEven_bounds digits ten with ⟨upper, lower⟩
  refine ⟨?_, ?_, ?_⟩
  · by_contra! zero
    obtain zero : roundHalfEven digits (10 ^ cut) = 0 := by omega
    rw [zero] at upper
    nlinarith
  · by_contra! large
    have := Nat.mul_le_mul_left (10 ^ cut) large
    rw [Nat.mul_succ] at this
    omega
  · have error : |(roundHalfEven digits (10 ^ cut) * 10 ^ cut : Rat) - digits| ≤ 10 ^ cut / 2 := by
      rw [abs_le]
      have upper : (2 * digits : Rat) ≤
          2 * (10 ^ cut * roundHalfEven digits (10 ^ cut)) + 10 ^ cut := by exact_mod_cast upper
      have lower : (2 * (10 ^ cut * roundHalfEven digits (10 ^ cut)) : Rat) ≤
          2 * digits + 10 ^ cut := by exact_mod_cast lower
      constructor <;> linarith
    have above : (10 ^ cut * 10 ^ (keep - 1) : Rat) ≤ digits := by exact_mod_cast above
    have shorter : (10 : Rat) ^ keep = 10 ^ (keep - 1) * 10 := by
      rw [← pow_succ, Nat.sub_add_cancel some]
    apply le_trans error
    rw [div_mul_eq_mul_div, le_div_iff₀ (by positivity), shorter]
    linarith

/-- A number with few enough digits stays as it is. -/
theorem fit_of_length_le (nonzero : digits ≠ 0) (short : decimalLength digits ≤ keep)
    (least : leastExponent keep ≤ exponent)
    (most : exponent + decimalLength digits ≤ maxExponent + 1) :
    fit keep negative digits exponent = .ok (.finite negative digits exponent) := by
  rw [fit, if_neg nonzero]
  extract_lets lowest unit
  have inside : ¬ maxExponent < lowest + keep - 1 := by
    simp only [lowest]
    omega
  have kept : ¬ exponent < unit := by
    simp only [unit, lowest]
    omega
  rw [if_neg inside, if_neg kept]

/-- A number with more digits than are kept is rounded to those. -/
theorem fit_of_lt_length {cut : Nat} (nonzero : digits ≠ 0)
    (long : decimalLength digits = keep + cut)
    (cuts : 0 < cut)
    (least : leastExponent keep ≤ exponent + cut)
    (most : exponent + decimalLength digits ≤ maxExponent) :
    fit keep negative digits exponent =
      if decimalLength (roundHalfEven digits (10 ^ cut)) ≤ keep then
        .ok (.finite negative (roundHalfEven digits (10 ^ cut)) (exponent + cut))
      else .ok (.finite negative (roundHalfEven digits (10 ^ cut) / 10) (exponent + cut + 1)) := by
  rw [fit, if_neg nonzero]
  extract_lets lowest unit rounded
  have inside : ¬ maxExponent < lowest + keep - 1 := by
    simp only [lowest]
    omega
  have same : unit = exponent + cut := by
    simp only [unit, lowest]
    omega
  have power : rounded = roundHalfEven digits (10 ^ cut) := by
    simp only [rounded, same]
    rw [show (exponent + (cut : Int) - exponent).toNat = cut by omega]
    rfl
  rw [if_neg inside, if_pos (by omega), power, same]
  by_cases fits : decimalLength (roundHalfEven digits (10 ^ cut)) ≤ keep
  · rw [if_pos fits, if_pos fits]
    exact if_neg (by omega)
  · rw [if_neg fits, if_neg fits]
    exact if_neg (by omega)

/-- A number of moderate size is rounded to the digits that are kept. -/
theorem fit_spec (some : 0 < keep) (few : keep ≤ 3000000) (positive : 0 < digits)
    (moderate : digits.log2 ≤ mostLength)
    (lower : (10 : Rat) ^ (-maxExponent) ≤ digits * 10 ^ exponent)
    (upper : (digits * 10 ^ exponent : Rat) < 10 ^ maxExponent) :
    ∃ kept unit, fit keep negative digits exponent = .ok (.finite negative kept unit) ∧ 0 < kept ∧
      kept < 10 ^ keep ∧ Near (5 / 10 ^ keep) (kept * 10 ^ unit) (digits * 10 ^ exponent) := by
  have range := place_of_size positive moderate lower upper
  have least : leastExponent keep = -maxExponent - keep + 1 := rfl
  have above := ten_pow_le_of_decimalLength positive
  have below := lt_ten_pow_decimalLength moderate
  rcases Nat.lt_or_ge keep (decimalLength digits) with long | short
  · obtain ⟨cut, length⟩ : ∃ cut : Nat, decimalLength digits = keep + cut :=
      ⟨decimalLength digits - keep, by omega⟩
    rw [length] at above below
    rw [show keep + cut - 1 = cut + (keep - 1) by omega, pow_add] at above
    rw [Nat.add_comm, pow_add] at below
    rcases roundHalfEven_digits some above below with ⟨kept, small, near⟩
    rw [fit_of_lt_length positive.ne' length (by omega) (by omega) (by omega)]
    have near : Near (5 / 10 ^ keep) (roundHalfEven digits (10 ^ cut) * 10 ^ (exponent + (cut : Int)))
        (digits * 10 ^ exponent) := by
      rw [zpow_add₀ (by norm_num), zpow_natCast, mul_comm ((10 : Rat) ^ exponent), ← mul_assoc]
      exact near.scale (by positivity)
    split
    next fits => exact ⟨_, _, rfl, kept, (decimalLength_le_iff some few).mp fits, near⟩
    next carry =>
      -- only a power of ten has one digit more
      have power : roundHalfEven digits (10 ^ cut) = 10 ^ keep := by
        rw [decimalLength_le_iff some few] at carry
        omega
      obtain ⟨rest, rfl⟩ : ∃ rest, keep = rest + 1 := ⟨keep - 1, by omega⟩
      rw [power, pow_succ, Nat.mul_div_cancel _ (by decide)]
      refine ⟨_, _, rfl, by positivity, Nat.pow_lt_pow_right (by decide) (Nat.lt_succ_self _), ?_⟩
      have same : ((10 ^ (rest + 1) : Nat) : Rat) * 10 ^ (exponent + (cut : Int)) =
          (10 ^ rest : Nat) * 10 ^ (exponent + (cut : Int) + 1) := by
        rw [zpow_add_one₀ (by norm_num), pow_succ]
        push_cast
        ring
      rwa [power, same] at near
  · rw [fit_of_length_le positive.ne' short (by omega) (by omega)]
    refine ⟨_, _, rfl, positive, ?_, ?_⟩
    · exact below.trans_le (Nat.pow_le_pow_right (by decide) short)
    · exact (Near.refl _).mono (by positivity) (by positivity)

end Fit

/-! ## Digits that are cut off

A floor whose last digit looks like a tie gives way to its successor. -/

theorem floor_or_succ (floor : Nat) : (if floor % 5 = 0 then floor + 1 else floor) = floor ∨
    (if floor % 5 = 0 then floor + 1 else floor) = floor + 1 := by
  split
  · exact .inr rfl
  · exact .inl rfl

/-- A number between two neighbours is near to either of them, as far as they are large. -/
theorem near_of_between {floor d : Nat} {x : Rat} (lower : (floor : Rat) ≤ x)
    (upper : x < floor + 1) (digits : d = floor ∨ d = floor + 1) (large : 10 ^ 20 ≤ floor) :
    Near (1 / 10 ^ 20) d x := by
  have large : (10 ^ 20 : Rat) ≤ floor := by exact_mod_cast large
  rw [Near, abs_le]
  rcases digits with rfl | rfl
  · constructor <;> linarith
  · push_cast
    constructor <;> linarith

/-! ## Roots -/

section Root

variable {n : Nat}

theorem log2_le_of_le {m length : Nat} (le : m ≤ n) (moderate : n.log2 ≤ length) :
    m.log2 ≤ length := by
  rcases Nat.eq_zero_or_pos m with rfl | positive
  · exact Nat.zero_le _
  · exact ((Nat.le_log2 (positive.trans_le le).ne').mpr
      ((Nat.log2_self_le positive.ne').trans le)).trans moderate

/-- A number between the squares of two neighbours is near to either of the squares, as far as
the neighbours are large. -/
theorem near_square_of_between {root d : Nat} {c x : Rat} (positive : 0 < c)
    (lower : (root * root * c : Rat) ≤ x) (upper : x < (root + 1) * (root + 1) * c)
    (digits : d = root ∨ d = root + 1) (large : 10 ^ 20 ≤ root) :
    Near (3 / 10 ^ 20) (d * d * c) x := by
  have large : (10 ^ 20 : Rat) ≤ root := by exact_mod_cast large
  have width : (2 * root + 1) * c ≤ 3 / 10 ^ 20 * x := by
    have proportion : (2 * root + 1 : Rat) ≤ 3 / 10 ^ 20 * (root * root) := by nlinarith
    calc (2 * root + 1) * c ≤ 3 / 10 ^ 20 * (root * root) * c :=
          mul_le_mul_of_nonneg_right proportion positive.le
      _ = 3 / 10 ^ 20 * (root * root * c) := by ring
      _ ≤ 3 / 10 ^ 20 * x := mul_le_mul_of_nonneg_left lower (by norm_num)
  have step : (root + 1) * (root + 1) * c = root * root * c + (2 * root + 1) * c := by ring
  rw [Near, abs_le]
  rcases digits with rfl | rfl
  · constructor <;> linarith
  · push_cast
    constructor <;> linarith

/-- The floor of the root of a number that is scaled by a power of ten. -/
theorem root_between {shift : Int} {root : Nat}
    (floor : root = Nat.sqrt (if 0 ≤ shift then n * 100 ^ shift.natAbs else n / 100 ^ shift.natAbs)) :
    (root * root * (10 ^ (-shift) * 10 ^ (-shift)) : Rat) ≤ n ∧
      (n : Rat) < (root + 1) * (root + 1) * (10 ^ (-shift) * 10 ^ (-shift)) := by
  have lower := Nat.sqrt_le' (if 0 ≤ shift then n * 100 ^ shift.natAbs else n / 100 ^ shift.natAbs)
  have upper := Nat.lt_succ_sqrt'
    (if 0 ≤ shift then n * 100 ^ shift.natAbs else n / 100 ^ shift.natAbs)
  rw [← floor, sq] at lower upper
  have hundred : ∀ s : Nat, (10 ^ s * 10 ^ s : Rat) = (100 ^ s : Nat) := by
    intro s
    rw [← mul_pow]
    norm_num
  rcases le_or_gt 0 shift with above | below
  · lift shift to Nat using above
    rw [if_pos (Int.natCast_nonneg _), Int.natAbs_natCast] at lower upper
    have scale : (0 : Rat) < (100 ^ shift : Nat) := by positivity
    have power : (10 ^ (-(shift : Int)) * 10 ^ (-(shift : Int)) : Rat) = ((100 ^ shift : Nat) : Rat)⁻¹ := by
      rw [zpow_neg, zpow_natCast, ← mul_inv, hundred]
    rw [power, ← div_eq_mul_inv, ← div_eq_mul_inv, div_le_iff₀ scale, lt_div_iff₀ scale]
    exact ⟨by exact_mod_cast lower, by exact_mod_cast upper⟩
  · obtain ⟨s, rfl⟩ : ∃ s : Nat, shift = -s := ⟨shift.natAbs, by omega⟩
    rw [if_neg (by omega), Int.natAbs_neg, Int.natAbs_natCast] at lower upper
    have scale : 0 < 100 ^ s := by positivity
    rw [neg_neg, zpow_natCast, hundred]
    rw [Nat.le_div_iff_mul_le scale] at lower
    rw [Nat.div_lt_iff_lt_mul scale] at upper
    exact ⟨by exact_mod_cast lower, by exact_mod_cast upper⟩

/-- A root of twenty-one digits. -/
theorem root_bounds {shift : Int} {root : Nat} (positive : 0 < n) (moderate : n.log2 ≤ mostLength)
    (places : shift = 21 - ((decimalLength n + 1) / 2 : Nat))
    (lower : (root * root * (10 ^ (-shift) * 10 ^ (-shift)) : Rat) ≤ n)
    (upper : (n : Rat) < (root + 1) * (root + 1) * (10 ^ (-shift) * 10 ^ (-shift))) :
    10 ^ 20 ≤ root ∧ root < 10 ^ 21 := by
  have power : (0 : Rat) < 10 ^ (-shift) * 10 ^ (-shift) := by positivity
  have first : (10 : Rat) ^ (decimalLength n - 1 : Nat) ≤ n := by
    exact_mod_cast ten_pow_le_of_decimalLength positive
  have last : (n : Rat) < 10 ^ (decimalLength n) := by
    exact_mod_cast lt_ten_pow_decimalLength moderate
  have length := decimalLength_pos positive
  have scaled : ∀ k : Nat, (10 ^ k * 10 ^ k * (10 ^ (-shift) * 10 ^ (-shift)) : Rat) =
      10 ^ (2 * k - 2 * shift : Int) := by
    intro k
    rw [← zpow_natCast, ← zpow_add₀ (by norm_num), ← zpow_add₀ (by norm_num),
      ← zpow_add₀ (by norm_num)]
    congr 1
    omega
  constructor
  · by_contra! small
    have below : ((root : Rat) + 1) ≤ 10 ^ 20 := by exact_mod_cast small
    have squared : (n : Rat) < 10 ^ 20 * 10 ^ 20 * (10 ^ (-shift) * 10 ^ (-shift)) := by
      apply upper.trans_le
      gcongr
    rw [scaled] at squared
    have ordered := first.trans_lt squared
    rw [← zpow_natCast, zpow_lt_zpow_iff_right₀ (by norm_num)] at ordered
    omega
  · by_contra! large
    have above : (10 ^ 21 : Rat) ≤ root := by exact_mod_cast large
    have squared : (10 ^ 21 * 10 ^ 21 * (10 ^ (-shift) * 10 ^ (-shift)) : Rat) ≤ n := by
      apply le_trans _ lower
      gcongr
    rw [scaled] at squared
    have ordered := squared.trans_lt last
    rw [← zpow_natCast, zpow_lt_zpow_iff_right₀ (by norm_num)] at ordered
    omega

/-- A square that is scaled by a square is the square of a scaled number. -/
theorem exists_root_of_scaled {root s : Nat} (same : root * root = n * 100 ^ s) :
    ∃ d, root = 10 ^ s * d ∧ d * d = n := by
  have hundred : 100 ^ s = 10 ^ s * 10 ^ s := Nat.mul_pow 10 10 s
  have ten : 0 < 10 ^ s := by positivity
  have divides : 10 ^ s ∣ root := by
    rw [← Nat.pow_dvd_pow_iff two_ne_zero, sq, sq, same, hundred]
    exact Nat.dvd_mul_left _ _
  obtain ⟨d, rfl⟩ := divides
  refine ⟨d, rfl, Nat.eq_of_mul_eq_mul_right (Nat.mul_pos ten ten) ?_⟩
  calc d * d * (10 ^ s * 10 ^ s) = 10 ^ s * d * (10 ^ s * d) := by ring
    _ = n * (10 ^ s * 10 ^ s) := by rw [same, hundred]

/-- The scaled root of a number that is divided by a square is the root of the number. -/
theorem scaled_root_mul_self {root s : Nat} (same : root * root = n / 100 ^ s)
    (divides : n % 100 ^ s = 0) : root * 10 ^ s * (root * 10 ^ s) = n := by
  have hundred : 100 ^ s = 10 ^ s * 10 ^ s := Nat.mul_pow 10 10 s
  calc root * 10 ^ s * (root * 10 ^ s) = root * root * 100 ^ s := by
        rw [hundred]
        ring
    _ = n / 100 ^ s * 100 ^ s := by rw [same]
    _ = n := Nat.div_mul_cancel (Nat.dvd_of_mod_eq_zero divides)

/-- A square that is scaled by a power of a hundred, with no rest, is the square of its scaled root in
the first units. -/
theorem exists_unscaled_root {shift : Int} {root : Nat}
    (same : root * root = if 0 ≤ shift then n * 100 ^ shift.natAbs else n / 100 ^ shift.natAbs)
    (rest : 0 ≤ shift ∨ n % 100 ^ shift.natAbs = 0) :
    ∃ d, d * d = n ∧ d = if 0 ≤ shift then root / 10 ^ shift.toNat else root * 10 ^ shift.natAbs := by
  split at same
  next above =>
    lift shift to Nat using above
    rw [Int.natAbs_natCast] at same
    rcases exists_root_of_scaled same with ⟨d, rfl, exactRoot⟩
    refine ⟨d, exactRoot, ?_⟩
    rw [if_pos (Int.natCast_nonneg _), Int.toNat_natCast, Nat.mul_div_cancel_left d (by positivity)]
  next below =>
    exact ⟨_, scaled_root_mul_self same (rest.resolve_left below), (if_neg below).symm⟩

/-- The digits of an exact root. -/
theorem root_digits_of_square {d : Nat} (positive : 0 < n) (moderate : n.log2 ≤ mostLength)
    (same : d * d = n) : 0 < d ∧ d.log2 ≤ mostLength ∧
      Near (3 / 10 ^ 20) (d * 10 ^ (0 : Int) * (d * 10 ^ (0 : Int))) n := by
  refine ⟨Nat.pos_of_ne_zero fun zero => ?_, ?_, ?_⟩
  · rw [zero] at same
    omega
  · exact log2_le_of_le (same ▸ Nat.le_mul_self d) moderate
  · rw [zpow_zero, mul_one, ← same, Nat.cast_mul]
    exact (Near.refl _).mono (by norm_num) (by positivity)

/-- The root of an integer is fitted from digits whose square is near to it. -/
theorem exists_root_digits (positive : 0 < n) (moderate : n.log2 ≤ mostLength) :
    ∃ d e, sqrtTo 20 (.finite false n 0) = fit 20 false d e ∧ 0 < d ∧ d.log2 ≤ mostLength ∧
      Near (3 / 10 ^ 20) (d * 10 ^ e * (d * 10 ^ e)) n := by
  rw [sqrtTo, if_neg positive.ne', if_neg Bool.false_ne_true]
  extract_lets odd square half shift scale scaled root exactly exponent
  have even : ¬ odd := by decide
  have number : square = n := if_neg even
  have places : shift = 21 - ((decimalLength n + 1) / 2 : Nat) := by
    simp only [shift, half, if_neg even]
    omega
  have units : exponent = -shift := zero_sub shift
  have floor : root =
      Nat.sqrt (if 0 ≤ shift then n * 100 ^ shift.natAbs else n / 100 ^ shift.natAbs) := by
    simp only [root, scaled, number, scale, Nat.pow_eq, floorSqrt_eq_sqrt]
  have power : scale = 100 ^ shift.natAbs := rfl
  have cut : scaled = if 0 ≤ shift then n * 100 ^ shift.natAbs else n / 100 ^ shift.natAbs := by
    simp only [scaled, number, power]
  have square_eq : exactly ↔ root * root = scaled ∧ (0 ≤ shift ∨ n % 100 ^ shift.natAbs = 0) := by
    rw [← number]
    rfl
  clear_value exponent root scaled scale shift
  rcases root_between floor with ⟨lower, upper⟩
  rcases root_bounds positive moderate places lower upper with ⟨large, small⟩
  split
  next square =>
    rcases square_eq.mp square with ⟨same, rest⟩
    rw [cut] at same
    rcases exists_unscaled_root same rest with ⟨d, exactRoot, units'⟩
    refine ⟨d, 0, ?_, root_digits_of_square positive moderate exactRoot⟩
    rw [units, neg_add_cancel, Nat.pow_eq, Nat.pow_eq, units', apply_ite (fit 20 false · 0)]
  next =>
    have digits := floor_or_succ root
    refine ⟨_, exponent, rfl, by omega, ?_, ?_⟩
    · have short : root + 1 ≤ 10 ^ 21 := small
      have length : (10 ^ 21 : Nat).log2 ≤ mostLength := by decide
      exact log2_le_of_le (by omega) length
    · have near := near_square_of_between (by positivity) lower upper digits large
      rw [units]
      convert near using 1
      ring

/-- The root of an integer that is not out of all proportion. -/
theorem sqrtTo_spec (positive : 0 < n) (few : decimalLength n ≤ 1999990) :
    ∃ k u, sqrtTo 20 (.finite false n 0) = .ok (.finite false k u) ∧ 0 < k ∧ k < 10 ^ 20 ∧
      Near (2 / 10 ^ 19) (k * 10 ^ u * (k * 10 ^ u)) n := by
  have moderate := log2_le_of_decimalLength_le (few.trans (by norm_num))
  rcases exists_root_digits positive moderate with ⟨d, e, root, some, short, near⟩
  have most : maxExponent = 999999 := rfl
  have one : (1 : Rat) ≤ n := by exact_mod_cast positive
  have bound : (n : Rat) < 10 ^ (decimalLength n : Int) := by
    exact_mod_cast lt_ten_pow_decimalLength moderate
  have lower : (10 : Rat) ^ (-maxExponent) ≤ d * 10 ^ e := by
    rw [mul_self_le_mul_self_iff (by positivity) (by positivity)]
    calc (10 ^ (-maxExponent) * 10 ^ (-maxExponent) : Rat)
        = 10 ^ (-maxExponent + -maxExponent) := (zpow_add₀ (by norm_num) _ _).symm
      _ ≤ 10 ^ (-1 : Int) := zpow_le_zpow_right₀ (by norm_num) (by omega)
      _ ≤ (1 - 3 / 10 ^ 20) * n := by norm_num; linarith
      _ ≤ d * 10 ^ e * (d * 10 ^ e) := near.ge
  have upper : (d * 10 ^ e : Rat) < 10 ^ maxExponent := by
    apply lt_of_mul_self_lt_mul_self₀ (by positivity)
    calc (d * 10 ^ e * (d * 10 ^ e) : Rat) ≤ 10 * n := by linarith [near.le]
      _ < 10 * 10 ^ (decimalLength n : Int) := by linarith
      _ = 10 ^ (decimalLength n + 1 : Int) := by rw [zpow_add_one₀ (by norm_num), mul_comm]
      _ ≤ 10 ^ (maxExponent + maxExponent) := zpow_le_zpow_right₀ (by norm_num) (by omega)
      _ = 10 ^ maxExponent * 10 ^ maxExponent := zpow_add₀ (by norm_num) _ _
  rcases @fit_spec _ 20 _ false (by norm_num) (by norm_num) some short lower upper with
    ⟨k, u, fitted, kept, few, close⟩
  refine ⟨k, u, root.trans fitted, kept, few, ?_⟩
  have squared := (close.mul close (by positivity) (by positivity) (by norm_num)).trans near (by norm_num)
  exact squared.mono (by norm_num) (by positivity)

end Root

/-! ## Quotients -/

section Quotient

/-- Dropping zeros keeps the number. -/
theorem dropZeros_spec {digits fuel : Nat} {exponent ideal : Int} {kept : Nat × Int}
    (positive : 0 < digits) (dropped : dropZeros digits exponent ideal fuel = kept) :
    0 < kept.1 ∧ kept.1 ≤ digits ∧ (kept.1 * 10 ^ kept.2 : Rat) = digits * 10 ^ exponent := by
  induction fuel generalizing digits exponent with
  | zero =>
    rw [dropZeros] at dropped
    rw [← dropped]
    exact ⟨positive, le_rfl, rfl⟩
  | succ fuel inductionHypothesis =>
    rw [dropZeros] at dropped
    split at dropped
    next zeros =>
      obtain ⟨rest, rfl⟩ := Nat.dvd_of_mod_eq_zero zeros.2
      rw [Nat.mul_div_cancel_left _ (by decide)] at dropped
      rcases inductionHypothesis (show 0 < rest by omega) dropped with ⟨some, fewer, same⟩
      refine ⟨some, by omega, same.trans ?_⟩
      rw [zpow_add_one₀ (by norm_num)]
      push_cast
      ring
    next =>
      rw [← dropped]
      exact ⟨positive, le_rfl, rfl⟩

variable {m n : Nat} {e f : Int}

/-- A quotient of at least twenty-one digits. -/
theorem scaled_bounds {a b : Nat} (mPositive : 0 < m) (nPositive : 0 < n)
    (mShort : m.log2 ≤ mostLength) (nShort : n.log2 ≤ mostLength)
    (places : (a : Int) - b = decimalLength n - decimalLength m + 21) :
    10 ^ 20 * (n * 10 ^ b) ≤ m * 10 ^ a ∧ m * 10 ^ a < 10 ^ 22 * (n * 10 ^ b) := by
  have mLength := decimalLength_pos mPositive
  have nLength := decimalLength_pos nPositive
  constructor
  · calc 10 ^ 20 * (n * 10 ^ b) ≤ 10 ^ 20 * (10 ^ decimalLength n * 10 ^ b) :=
          Nat.mul_le_mul_left _ (Nat.mul_le_mul_right _ (lt_ten_pow_decimalLength nShort).le)
      _ = 10 ^ (20 + (decimalLength n + b)) := by rw [pow_add, pow_add]
      _ = 10 ^ (decimalLength m - 1 + a) := by congr 1; omega
      _ = 10 ^ (decimalLength m - 1) * 10 ^ a := pow_add ..
      _ ≤ m * 10 ^ a := Nat.mul_le_mul_right _ (ten_pow_le_of_decimalLength mPositive)
  · calc m * 10 ^ a < 10 ^ decimalLength m * 10 ^ a :=
          Nat.mul_lt_mul_of_pos_right (lt_ten_pow_decimalLength mShort) (by positivity)
      _ = 10 ^ (decimalLength m + a) := (pow_add ..).symm
      _ = 10 ^ (22 + (decimalLength n - 1 + b)) := by congr 1; omega
      _ = 10 ^ 22 * (10 ^ (decimalLength n - 1) * 10 ^ b) := by rw [pow_add, pow_add]
      _ ≤ 10 ^ 22 * (n * 10 ^ b) :=
        Nat.mul_le_mul_left _ (Nat.mul_le_mul_right _ (ten_pow_le_of_decimalLength nPositive))

/-- A quotient is that of the scaled numbers, in units of the exponent that is left. -/
theorem quotient_scaled (nPositive : 0 < n) {shift exponent : Int} (power : exponent = e - f - shift) :
    (m * 10 ^ e / (n * 10 ^ f) : Rat) =
      (m * 10 ^ shift.toNat : Nat) / (n * 10 ^ (-shift).toNat : Nat) * 10 ^ exponent := by
  have parts : (shift.toNat : Int) - (-shift).toNat = shift := Int.toNat_sub_toNat_neg shift
  have tens : (10 : Rat) ^ shift.toNat = 10 ^ (-shift).toNat * 10 ^ shift := by
    rw [← zpow_natCast, ← zpow_natCast, ← zpow_add₀ (by norm_num)]
    congr 1
    omega
  have rest : (10 : Rat) ^ e = 10 ^ exponent * 10 ^ f * 10 ^ shift := by
    rw [← zpow_add₀ (by norm_num), ← zpow_add₀ (by norm_num)]
    congr 1
    omega
  push_cast
  rw [tens, rest]
  field_simp

/-- The quotient of two numbers is fitted from digits that are near to it. -/
theorem exists_quotient_digits (mPositive : 0 < m) (nPositive : 0 < n)
    (mShort : m.log2 ≤ mostLength) (nShort : n.log2 ≤ mostLength) :
    ∃ d g, quotient 20 false m e n f = fit 20 false d g ∧ 0 < d ∧ d ≤ 10 ^ 22 ∧
      Near (1 / 10 ^ 20) (d * 10 ^ g) (m * 10 ^ e / (n * 10 ^ f)) := by
  unfold Decimal.quotient
  extract_lets shift exponent num den digits kept
  have numerator : num = m * 10 ^ shift.toNat := rfl
  have denominator : den = n * 10 ^ (-shift).toNat := rfl
  have quotient : digits = num / den := rfl
  have power : exponent = e - f - shift := rfl
  have parts : (shift.toNat : Int) - (-shift).toNat = shift := Int.toNat_sub_toNat_neg shift
  have places : shift = decimalLength n - decimalLength m + 21 := by
    simp only [shift]
    ring
  have dropped : dropZeros digits exponent (e - f) (decimalLength digits) = kept := rfl
  clear_value kept digits den num exponent shift
  have scaled : (m * 10 ^ e / (n * 10 ^ f) : Rat) = num / den * 10 ^ exponent := by
    rw [numerator, denominator]
    exact quotient_scaled nPositive power
  rcases scaled_bounds mPositive nPositive mShort nShort (parts.trans places) with ⟨lower, upper⟩
  rw [← numerator, ← denominator] at lower upper
  have divisor : 0 < den := by
    rw [denominator]
    positivity
  have large : 10 ^ 20 ≤ digits := by
    rw [quotient]
    exact (Nat.le_div_iff_mul_le divisor).mpr lower
  have small : digits < 10 ^ 22 := by
    rw [quotient]
    exact (Nat.div_lt_iff_lt_mul divisor).mpr upper
  rw [scaled]
  split
  next exactly =>
    rcases dropZeros_spec (by omega) dropped with ⟨some, fewer, same⟩
    refine ⟨kept.1, kept.2, rfl, some, by omega, ?_⟩
    have whole : (num / den : Rat) = digits := by
      rw [div_eq_iff (by positivity), quotient]
      exact_mod_cast (Nat.div_mul_cancel (Nat.dvd_of_mod_eq_zero exactly)).symm
    rw [same, whole]
    exact (Near.refl _).mono (by norm_num) (by positivity)
  next =>
    have last := floor_or_succ digits
    have below : (digits : Rat) ≤ num / den := quotient ▸ Nat.cast_div_le
    have above := Nat.lt_floor_add_one (num / den : Rat)
    rw [Nat.floor_div_eq_div, ← quotient] at above
    refine ⟨_, exponent, rfl, by omega, by omega, ?_⟩
    exact (near_of_between below above last large).scale (by positivity)

/-- The quotient of two numbers of up to twenty digits, in a range that is not out of all
proportion. -/
theorem divTo_spec {bound : Int} (mPositive : 0 < m) (nPositive : 0 < n) (mShort : m < 10 ^ 20)
    (nShort : n < 10 ^ 20) (moderate : bound ≤ 999997)
    (lower : (10 : Rat) ^ (-bound) ≤ m * 10 ^ e / (n * 10 ^ f))
    (upper : (m * 10 ^ e / (n * 10 ^ f) : Rat) ≤ 10 ^ bound) :
    ∃ k u, divTo 20 (.finite false m e) (.finite false n f) = .ok (.finite false k u) ∧
      0 < k ∧ k < 10 ^ 20 ∧ Near (7 / 10 ^ 20) (k * 10 ^ u) (m * 10 ^ e / (n * 10 ^ f)) := by
  have few : ∀ {k : Nat}, k ≤ 10 ^ 22 → k.log2 ≤ mostLength := fun le =>
    log2_le_of_le le (by decide)
  have most : maxExponent = 999999 := rfl
  rcases exists_quotient_digits (e := e) (f := f) mPositive nPositive (few (by omega))
    (few (by omega)) with ⟨d, g, divided, some, short, near⟩
  have least : (10 : Rat) ^ (-maxExponent) ≤ d * 10 ^ g := by
    calc (10 : Rat) ^ (-maxExponent) ≤ 10 ^ (-bound + -1 : Int) :=
          zpow_le_zpow_right₀ (by norm_num) (by omega)
      _ = 10 ^ (-bound) * 10 ^ (-1 : Int) := zpow_add₀ (by norm_num) _ _
      _ ≤ m * 10 ^ e / (n * 10 ^ f) * (1 - 1 / 10 ^ 20) := by
        apply mul_le_mul lower (by norm_num) (by positivity) (by positivity)
      _ ≤ d * 10 ^ g := by linarith [near.ge]
  have largest : (d * 10 ^ g : Rat) < 10 ^ maxExponent := by
    calc (d * 10 ^ g : Rat) ≤ (1 + 1 / 10 ^ 20) * (m * 10 ^ e / (n * 10 ^ f)) := near.le
      _ ≤ 10 ^ (1 : Int) * 10 ^ bound :=
        mul_le_mul (by norm_num) upper (by positivity) (by positivity)
      _ = 10 ^ (1 + bound) := (zpow_add₀ (by norm_num) _ _).symm
      _ < 10 ^ maxExponent := zpow_lt_zpow_right₀ (by norm_num) (by omega)
  rcases @fit_spec _ 20 _ false (by norm_num) (by norm_num) some (few short)
    least largest with ⟨k, u, fitted, kept, digits, close⟩
  refine ⟨k, u, ?_, kept, digits, ?_⟩
  · rw [divTo, if_neg nPositive.ne', if_neg mPositive.ne']
    exact divided.trans fitted
  · exact (close.trans near (by norm_num)).mono (by norm_num) (by positivity)

end Quotient

end ExactRoots.Decimal
