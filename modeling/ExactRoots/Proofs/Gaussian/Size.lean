import ExactRoots.Proofs.Gaussian.Field
import Mathlib.Data.Rat.Lemmas
import Mathlib.Tactic.Positivity

/-!
# Sizes of rationals

How many digits the numerator and the denominator of a sum, a product or a quotient
of rationals have at most.
-/

namespace ExactRoots

/-! ## Lowest terms -/

/-- Lowest terms have no larger numerator than any others. -/
theorem num_natAbs_div_le (a : Int) {b : Int} (nonzero : b ≠ 0) :
    (a / b : Rat).num.natAbs ≤ a.natAbs := by
  rw [← Rat.divInt_eq_div]
  rcases eq_or_ne a 0 with rfl | nonzero'
  · rw [Rat.zero_divInt]
    rfl
  · exact Int.natAbs_le_of_dvd_ne_zero (Rat.num_dvd a nonzero) nonzero'

/-- Lowest terms have no larger denominator than any others. -/
theorem den_div_le (a : Int) {b : Int} (nonzero : b ≠ 0) : (a / b : Rat).den ≤ b.natAbs := by
  rw [← Rat.divInt_eq_div]
  have divides := Int.natAbs_le_of_dvd_ne_zero (Rat.den_dvd a b) nonzero
  rwa [Int.natAbs_natCast] at divides

/-! ## Digits -/

/-- Whether numerator and denominator are at most a power of ten. -/
structure Sized (k : Nat) (q : Rat) : Prop where
  num : q.num.natAbs ≤ 10 ^ k
  den : q.den ≤ 10 ^ k

namespace Sized

variable {k m n : Nat} {p q : Rat}

theorem mono (sized : Sized m q) (le : m ≤ n) : Sized n q := by
  have power : 10 ^ m ≤ 10 ^ n := Nat.pow_le_pow_right (by decide) le
  exact ⟨sized.num.trans power, sized.den.trans power⟩

theorem of_div {a b : Int} (nonzero : b ≠ 0) (num : a.natAbs ≤ 10 ^ k) (den : b.natAbs ≤ 10 ^ k) :
    Sized k (a / b) :=
  ⟨(num_natAbs_div_le a nonzero).trans num, (den_div_le a nonzero).trans den⟩

theorem intCast {n : Int} (small : n.natAbs ≤ 10 ^ k) : Sized k n := by
  constructor
  · rwa [Rat.num_intCast]
  · rw [Rat.den_intCast]
    exact Nat.one_le_pow _ _ (by decide)

theorem neg (sized : Sized k q) : Sized k (-q) := by
  constructor
  · rw [Rat.neg_num, Int.natAbs_neg]
    exact sized.num
  · rw [Rat.neg_den]
    exact sized.den

theorem mul (first : Sized m p) (second : Sized n q) : Sized (m + n) (p * q) := by
  have product : p * q = ((p.num * q.num : Int) : Rat) / ((p.den * q.den : Nat) : Int) := by
    conv_lhs => rw [← Rat.num_div_den p, ← Rat.num_div_den q]
    push_cast
    exact div_mul_div_comm _ _ _ _
  rw [product]
  apply of_div
  · exact_mod_cast Nat.mul_ne_zero p.den_nz q.den_nz
  · rw [Int.natAbs_mul, Nat.pow_add]
    exact Nat.mul_le_mul first.num second.num
  · rw [Int.natAbs_natCast, Nat.pow_add]
    exact Nat.mul_le_mul first.den second.den

theorem inv (sized : Sized k q) : Sized k q⁻¹ := by
  rcases eq_or_ne q 0 with rfl | nonzero
  · rwa [inv_zero]
  have flipped : q⁻¹ = ((q.den : Int) : Rat) / q.num := by
    conv_lhs => rw [← Rat.num_div_den q]
    rw [inv_div]
    rfl
  rw [flipped]
  exact of_div (Rat.num_ne_zero.mpr nonzero) sized.den sized.num

theorem div (first : Sized m p) (second : Sized n q) : Sized (m + n) (p / q) := by
  rw [div_eq_mul_inv]
  exact first.mul second.inv

theorem add (first : Sized m p) (second : Sized n q) : Sized (m + n + 1) (p + q) := by
  have sum : p + q =
      ((p.num * q.den + q.num * p.den : Int) : Rat) / ((p.den * q.den : Nat) : Int) := by
    conv_lhs => rw [← Rat.num_div_den p, ← Rat.num_div_den q]
    push_cast
    rw [div_add_div _ _ (by positivity) (by positivity)]
    ring
  rw [sum]
  apply of_div
  · exact_mod_cast Nat.mul_ne_zero p.den_nz q.den_nz
  · apply (Int.natAbs_add_le _ _).trans
    rw [Int.natAbs_mul, Int.natAbs_mul, Int.natAbs_natCast, Int.natAbs_natCast, Nat.pow_succ,
      Nat.pow_add]
    have left := Nat.mul_le_mul first.num second.den
    have right := Nat.mul_le_mul second.num first.den
    rw [Nat.mul_comm (10 ^ n)] at right
    omega
  · rw [Int.natAbs_natCast, Nat.pow_succ, Nat.pow_add]
    have product := Nat.mul_le_mul first.den second.den
    omega

theorem sub (first : Sized m p) (second : Sized n q) : Sized (m + n + 1) (p - q) := by
  rw [sub_eq_add_neg]
  exact first.add second.neg

theorem abs_eq (q : Rat) : |q| = (q.num.natAbs : Rat) / q.den := by
  rw [Rat.abs_def, Rat.divInt_eq_div]
  simp

/-- A rational is at most as large as its numerator. -/
theorem abs_le (sized : Sized k q) : |q| ≤ 10 ^ k := by
  have whole : (1 : Rat) ≤ q.den := Nat.one_le_cast.mpr q.den_pos
  have num : (q.num.natAbs : Rat) ≤ 10 ^ k := by exact_mod_cast sized.num
  rw [abs_eq]
  exact (div_le_self (Nat.cast_nonneg _) whole).trans num

/-- A rational that is not zero is at least as large as one over its denominator. -/
theorem le_abs (sized : Sized k q) (nonzero : q ≠ 0) : 1 / 10 ^ k ≤ |q| := by
  have num : (1 : Rat) ≤ q.num.natAbs :=
    Nat.one_le_cast.mpr (Int.natAbs_pos.mpr (Rat.num_ne_zero.mpr nonzero))
  have den : (q.den : Rat) ≤ 10 ^ k := by exact_mod_cast sized.den
  rw [abs_eq]
  exact div_le_div₀ (Nat.cast_nonneg _) num (Nat.cast_pos.mpr q.den_pos) den

end Sized

end ExactRoots
