import ExactRoots.Natural.Rounding
import Mathlib.Algebra.Order.Ring.Nat
import Mathlib.Data.Nat.Log
import Mathlib.Tactic.NormNum

/-!
# The number of decimal digits

The digits of a number are counted from an estimate, which is the binary length
times a rational a little below the logarithm of two to the base ten.  Fractions
close to that logarithm, on either side, show that the estimate is short by at most
one.
-/

namespace ExactRoots

/-- The number of digits that a binary length surely calls for. -/
def leastDigits (length : Nat) : Nat := length * 30102999566 / 100000000000

/-- Powers of two bases compare as one pair of them does, as far as the exponents are in the same
ratio. -/
theorem pow_le_pow_of_ratio {a b p q m n : Nat} (positive : 0 < b) (nonzero : p ≠ 0)
    (powers : a ^ p ≤ b ^ q) (ratio : m * q ≤ n * p) : a ^ m ≤ b ^ n := by
  rw [← Nat.pow_le_pow_iff_left nonzero]
  calc (a ^ m) ^ p
      = (a ^ p) ^ m := Nat.pow_right_comm ..
    _ ≤ (b ^ q) ^ m := Nat.pow_le_pow_left powers m
    _ = b ^ (m * q) := by rw [Nat.mul_comm, Nat.pow_mul]
    _ ≤ b ^ (n * p) := Nat.pow_le_pow_right positive ratio
    _ = (b ^ n) ^ p := Nat.pow_mul ..

theorem ten_pow_le_two_pow : 10 ^ 97879 ≤ 2 ^ 325147 := by decide +kernel

theorem two_pow_le_ten_pow : 2 ^ 13301 ≤ 10 ^ 4004 := by decide +kernel

/-- The estimate is not too large. -/
theorem ten_pow_leastDigits_le (length : Nat) : 10 ^ leastDigits length ≤ 2 ^ length := by
  apply pow_le_pow_of_ratio (a := 10) (b := 2) (p := 97879) (q := 325147) two_pos (by decide)
    ten_pow_le_two_pow
  unfold leastDigits
  omega

/-- The longest binary length for which the estimate is examined. -/
def mostLength : Nat := 10000000

/-- The estimate is short by at most one, for lengths that are not out of all proportion. -/
theorem two_pow_le_ten_pow_leastDigits {length : Nat} (bound : length ≤ mostLength) :
    2 ^ (length + 1) ≤ 10 ^ (leastDigits length + 2) := by
  rw [mostLength] at bound
  apply pow_le_pow_of_ratio (a := 2) (b := 10) (p := 13301) (q := 4004) (by decide) (by decide)
    two_pow_le_ten_pow
  unfold leastDigits
  omega

/-- The digits of a positive number, counted from the estimate. -/
theorem decimalLength_eq {n : Nat} (positive : 0 < n) : decimalLength n =
    if n < 10 ^ (leastDigits n.log2 + 1) then leastDigits n.log2 + 1
    else leastDigits n.log2 + 2 := by
  have least : ¬ n < 10 ^ leastDigits n.log2 :=
    Nat.not_lt.mpr ((ten_pow_leastDigits_le n.log2).trans (Nat.log2_self_le positive.ne'))
  have power : Nat.pow 10 (leastDigits n.log2) = 10 ^ leastDigits n.log2 := rfl
  rw [decimalLength, ← leastDigits, power, decimalLength.count, if_neg least, decimalLength.count,
    ← Nat.pow_succ, decimalLength.count]
  split
  next => exact max_eq_left (by omega)
  next => rfl

/-- A number has as many digits as are counted, or more. -/
theorem ten_pow_le_of_decimalLength {n : Nat} (positive : 0 < n) :
    10 ^ (decimalLength n - 1) ≤ n := by
  have least : 10 ^ leastDigits n.log2 ≤ n :=
    (ten_pow_leastDigits_le n.log2).trans (Nat.log2_self_le positive.ne')
  rw [decimalLength_eq positive]
  split
  next => rwa [Nat.add_sub_cancel]
  next more =>
    rw [Nat.add_sub_assoc (by decide)]
    exact Nat.not_lt.mp more

theorem decimalLength_pos {n : Nat} (positive : 0 < n) : 0 < decimalLength n := by
  rw [decimalLength_eq positive]
  split <;> exact Nat.succ_pos _

/-- A number that is not out of all proportion has no more digits than are counted. -/
theorem lt_ten_pow_decimalLength {n : Nat} (moderate : n.log2 ≤ mostLength) :
    n < 10 ^ decimalLength n := by
  rcases Nat.eq_zero_or_pos n with rfl | positive
  · positivity
  rw [decimalLength_eq positive]
  split
  next less => exact less
  next => exact Nat.lt_log2_self.trans_le (two_pow_le_ten_pow_leastDigits moderate)

/-- A number with few digits is not out of all proportion. -/
theorem log2_le_of_decimalLength_le {n : Nat} (few : decimalLength n ≤ 3000000) :
    n.log2 ≤ mostLength := by
  rcases Nat.eq_zero_or_pos n with rfl | positive
  · exact Nat.zero_le _
  by_contra! huge
  have most : mostLength = 10000000 := rfl
  rw [decimalLength_eq positive] at few
  unfold leastDigits at few
  split at few <;> omega

/-- A number has at most so many digits exactly when it is below the power of ten. -/
theorem decimalLength_le_iff {n digits : Nat} (positive : 0 < digits) (bound : digits ≤ 3000000) :
    decimalLength n ≤ digits ↔ n < 10 ^ digits := by
  rcases Nat.eq_zero_or_pos n with rfl | nonzero
  · have zero : decimalLength 0 = 1 := by decide
    rw [zero]
    exact iff_of_true positive (by positivity)
  constructor
  · intro fits
    have moderate := log2_le_of_decimalLength_le (fits.trans bound)
    exact (lt_ten_pow_decimalLength moderate).trans_le (Nat.pow_le_pow_right (by decide) fits)
  · intro less
    have ordered := (Nat.pow_lt_pow_iff_right (by decide)).mp
      ((ten_pow_le_of_decimalLength nonzero).trans_lt less)
    omega

end ExactRoots
