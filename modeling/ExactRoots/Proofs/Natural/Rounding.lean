import ExactRoots.Natural.Rounding
import Mathlib.Algebra.Order.Field.Basic
import Mathlib.Data.Rat.Cast.Order
import Mathlib.Tactic.FieldSimp
import Mathlib.Tactic.Linarith
import Mathlib.Tactic.Ring

/-!
# Rounding errors

Rounding a quotient to the nearest integer moves it by at most one half, and
rounding a rational to a number of decimals by at most half a unit of the last
one.
-/

namespace ExactRoots

/-- The integer that a quotient is rounded to is one of its neighbours: the lower one when the
remainder is at most half the denominator, the upper one when it is at least that much, and in a tie
the even one. -/
theorem roundHalfEven_cases (num : Nat) {den : Nat} (positive : 0 < den) :
    (2 * (num % den) = den → roundHalfEven num den % 2 = 0) ∧
      (roundHalfEven num den = num / den ∧ 2 * (num % den) ≤ den ∨
        roundHalfEven num den = num / den + 1 ∧ den ≤ 2 * (num % den)) := by
  have remainder := Nat.mod_lt num positive
  rw [roundHalfEven]
  split
  next up => exact ⟨by omega, .inr ⟨rfl, by omega⟩⟩
  next down => exact ⟨by omega, .inl ⟨rfl, by omega⟩⟩

/-- A quotient is within one half of the integer that it is rounded to. -/
theorem roundHalfEven_bounds (num : Nat) {den : Nat} (positive : 0 < den) :
    2 * num ≤ 2 * (den * roundHalfEven num den) + den ∧
      2 * (den * roundHalfEven num den) ≤ 2 * num + den := by
  have division := Nat.div_add_mod num den
  have remainder := Nat.mod_lt num positive
  rcases (roundHalfEven_cases num positive).2 with ⟨same, half⟩ | ⟨same, half⟩
  · rw [same]
    omega
  · rw [same, Nat.mul_add, Nat.mul_one]
    omega

theorem roundHalfEven_le (num den : Nat) : roundHalfEven num den ≤ num / den + 1 := by
  rw [roundHalfEven]
  split
  next => exact le_rfl
  next => exact Nat.le_succ _

/-- A tie goes to an even neighbour. -/
theorem even_of_tie {num den : Nat} (positive : 0 < den)
    (tie : 2 * num + den = 2 * (den * roundHalfEven num den) ∨
      2 * num = 2 * (den * roundHalfEven num den) + den) :
    roundHalfEven num den % 2 = 0 := by
  have division := Nat.div_add_mod num den
  have remainder := Nat.mod_lt num positive
  rcases roundHalfEven_cases num positive with ⟨even, ⟨same, half⟩ | ⟨same, half⟩⟩
  · apply even
    rw [same] at tie
    omega
  · apply even
    rw [same, Nat.mul_add, Nat.mul_one] at tie
    omega

/-- Rounding to the nearest integer keeps the order of quotients. -/
theorem roundHalfEven_mono {num den num' den' : Nat} (positive : 0 < den) (positive' : 0 < den')
    (below : (num / den : Rat) ≤ num' / den') :
    roundHalfEven num den ≤ roundHalfEven num' den' := by
  have crossed : num * den' ≤ num' * den := by
    rw [div_le_div_iff₀ (Nat.cast_pos.mpr positive) (Nat.cast_pos.mpr positive')] at below
    exact_mod_cast below
  have lower := (roundHalfEven_bounds num positive).2
  have upper := (roundHalfEven_bounds num' positive').1
  have even := @even_of_tie num den positive
  have even' := @even_of_tie num' den' positive'
  generalize roundHalfEven num den = r at *
  generalize roundHalfEven num' den' = r' at *
  by_contra! above
  -- Both quotients are half an integer, between the same neighbours, and both of these are even.
  have scaledLower := Nat.mul_le_mul_right den' lower
  have scaledUpper := Nat.mul_le_mul_right den upper
  have product : 0 < den * den' := Nat.mul_pos positive positive'
  have gap : den * den' * (r' + 1) ≤ den * den' * r := Nat.mul_le_mul_left _ above
  have tie : (2 * num + den) * den' = 2 * (den * r) * den' := by nlinarith
  have tie' : 2 * num' * den = (2 * (den' * r') + den') * den := by nlinarith
  have neighbours : den * den' * (r' + 1) = den * den' * r := by nlinarith
  have next := Nat.eq_of_mul_eq_mul_left product neighbours
  have even := even (.inl (Nat.eq_of_mul_eq_mul_right positive' tie))
  have even' := even' (.inr (Nat.eq_of_mul_eq_mul_right positive tie'))
  omega

@[simp]
theorem roundHalfEven_one (n : Nat) : roundHalfEven n 1 = n := by
  simp [roundHalfEven, Nat.mod_one]

theorem abs_roundHalfEven_sub_le (num : Nat) {den : Nat} (positive : 0 < den) :
    |(roundHalfEven num den : Rat) - num / den| ≤ 1 / 2 := by
  have denPositive : (0 : Rat) < den := Nat.cast_pos.mpr positive
  rcases roundHalfEven_bounds num positive with ⟨below, above⟩
  have lower : (2 * num : Rat) ≤ 2 * (den * roundHalfEven num den) + den := by exact_mod_cast below
  have upper : (2 * (den * roundHalfEven num den) : Rat) ≤ 2 * num + den := by exact_mod_cast above
  have scaled : (roundHalfEven num den : Rat) - num / den =
      (2 * (den * roundHalfEven num den) - 2 * num) / (2 * den) := by
    field_simp
  rw [scaled, abs_div, abs_of_pos (mul_pos two_pos denPositive : (0 : Rat) < 2 * den),
    div_le_iff₀ (mul_pos two_pos denPositive), abs_le]
  constructor <;> linarith

/-- A rational is within one half of the integer that it is rounded to. -/
theorem abs_roundRational_sub_le (q : Rat) : |(roundRational q : Rat) - q| ≤ 1 / 2 := by
  have size := abs_roundHalfEven_sub_le q.num.natAbs q.den_pos
  have quotient : (q.num : Rat) / q.den = q := Rat.num_div_den q
  unfold roundRational
  dsimp only
  split
  next negative =>
    have num : (q.num.natAbs : Rat) = -q.num := by
      rw [Nat.cast_natAbs, abs_of_neg negative, Int.cast_neg]
    rw [num, neg_div, quotient, sub_neg_eq_add] at size
    rw [Int.cast_neg, Int.cast_natCast, ← abs_neg]
    simpa [add_comm] using size
  next nonneg =>
    have num : (q.num.natAbs : Rat) = q.num := by
      rw [Nat.cast_natAbs, abs_of_nonneg (not_lt.mp nonneg)]
    rw [num, quotient] at size
    rw [Int.cast_natCast]
    exact size

/-- Rounding to `places` decimals moves a rational by at most half a unit of the last
place. -/
theorem abs_roundRationalTo_sub_le (q : Rat) (places : Int) :
    |roundRationalTo q places - q| ≤ 10 ^ (-places) / 2 := by
  unfold roundRationalTo
  simp only [Nat.pow_eq]
  split
  next positive =>
    lift places to Nat using positive.le
    have unit : (0 : Rat) < 10 ^ places := by positivity
    have rounded := abs_roundRational_sub_le (q * 10 ^ places)
    have scaled : mkRat (roundRational (q * 10 ^ places)) (10 ^ places) - q =
        (roundRational (q * 10 ^ places) - q * 10 ^ places) / 10 ^ places := by
      rw [Rat.mkRat_eq_div, Nat.cast_pow, Nat.cast_ofNat]
      field_simp
    rw [Int.toNat_natCast, Nat.cast_pow, Nat.cast_ofNat, scaled, abs_div, abs_of_pos unit,
      zpow_neg, zpow_natCast, div_le_iff₀ unit]
    calc |(roundRational (q * 10 ^ places) : Rat) - q * 10 ^ places|
        ≤ 1 / 2 := rounded
      _ = (10 ^ places)⁻¹ / 2 * 10 ^ places := by field_simp
  next nonpos =>
    obtain ⟨n, rfl⟩ : ∃ n : Nat, places = -n :=
      ⟨places.natAbs, by omega⟩
    have unit : (0 : Rat) < 10 ^ n := by positivity
    have rounded := abs_roundRational_sub_le (q / 10 ^ n)
    have scaled : ((roundRational (q / 10 ^ n) * 10 ^ n : Int) : Rat) - q =
        (roundRational (q / 10 ^ n) - q / 10 ^ n) * 10 ^ n := by
      push_cast
      field_simp
    rw [neg_neg, Int.toNat_natCast, Nat.cast_pow, Nat.cast_ofNat, Nat.cast_pow, Nat.cast_ofNat,
      scaled, abs_mul, abs_of_pos unit, zpow_natCast]
    calc |(roundRational (q / 10 ^ n) : Rat) - q / 10 ^ n| * 10 ^ n
        ≤ 1 / 2 * 10 ^ n := mul_le_mul_of_nonneg_right rounded unit.le
      _ = 10 ^ n / 2 := by ring

end ExactRoots
