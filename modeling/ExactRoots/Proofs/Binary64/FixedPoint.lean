import ExactRoots.Binary64.Logarithm
import Mathlib.Algebra.Order.Floor.Semifield
import Mathlib.Analysis.SpecialFunctions.Log.Deriv

/-!
# Logarithms in fixed point

A fixed-point number stands for a real number that it does not exceed, and falls short of it by a
few units at most.  Products and quotients of such numbers are such numbers again, so the series of
the inverse hyperbolic tangent is computed to within a few hundred units.
-/

namespace ExactRoots.Binary64

/-- Whether a natural number falls short of a real one by at most `slack`. -/
structure Truncates (slack : ℝ) (n : ℕ) (r : ℝ) : Prop where
  le : n ≤ r
  near : r ≤ n + slack

namespace Truncates

variable {e f r s : ℝ} {m n : ℕ}

theorem exact (n : ℕ) : Truncates 0 n n := ⟨le_rfl, by simp⟩

theorem nonneg (truncates : Truncates e n r) : 0 ≤ r := (Nat.cast_nonneg n).trans truncates.le

theorem abs_sub_le (truncates : Truncates e n r) : |n - r| ≤ e := by
  rw [abs_sub_comm, abs_of_nonneg (sub_nonneg.mpr truncates.le)]
  linarith [truncates.near]

theorem mono (truncates : Truncates e n r) (less : e ≤ f) : Truncates f n r :=
  ⟨truncates.le, by linarith [truncates.near]⟩

theorem add (left : Truncates e m r) (right : Truncates f n s) :
    Truncates (e + f) (m + n) (r + s) where
  le := by
    push_cast
    exact add_le_add left.le right.le
  near := by
    push_cast
    linarith [left.near, right.near]

theorem mul (left : Truncates e m r) (right : Truncates f n s) :
    Truncates (r * f + s * e) (m * n) (r * s) where
  le := by
    push_cast
    exact mul_le_mul left.le right.le (Nat.cast_nonneg n) left.nonneg
  near := by
    have first : r * (s - n) ≤ r * f :=
      mul_le_mul_of_nonneg_left (by linarith [right.near]) left.nonneg
    have second : n * (r - m) ≤ s * e :=
      mul_le_mul right.le (by linarith [left.near]) (by linarith [left.le]) right.nonneg
    push_cast
    linarith

theorem div (truncates : Truncates e n r) (k : ℕ) : Truncates (e / k + 1) (n / k) (r / k) where
  le := Nat.cast_div_le.trans (div_le_div_of_nonneg_right truncates.le (Nat.cast_nonneg k))
  near := by
    have floored : (n : ℝ) / k ≤ (n / k : ℕ) + 1 := by
      rw [← Nat.floor_div_eq_div (K := ℝ)]
      exact (Nat.lt_floor_add_one _).le
    calc r / k ≤ (n + e) / k := div_le_div_of_nonneg_right truncates.near (Nat.cast_nonneg k)
      _ = n / k + e / k := add_div _ _ _
      _ ≤ (n / k : ℕ) + (e / k + 1) := by linarith

end Truncates

/-! ## The series of the inverse hyperbolic tangent -/

/-- The product of two fixed-point numbers. -/
theorem Truncates.scaled_mul {e f r s : ℝ} {m n : ℕ} (left : Truncates e m (2 ^ fixedBits * r))
    (right : Truncates f n (2 ^ fixedBits * s)) :
    Truncates (r * f + s * e + 1) ((m * n) >>> fixedBits) (2 ^ fixedBits * (r * s)) := by
  have unit : ((2 ^ fixedBits : ℕ) : ℝ) = 2 ^ fixedBits := by push_cast; rfl
  have positive : (0 : ℝ) < 2 ^ fixedBits := by positivity
  have product := (left.mul right).div (2 ^ fixedBits)
  rw [unit] at product
  rw [Nat.shiftRight_eq_div_pow]
  have slack : (2 ^ fixedBits * r * f + 2 ^ fixedBits * s * e) / 2 ^ fixedBits = r * f + s * e := by
    field_simp
  have amount : 2 ^ fixedBits * r * (2 ^ fixedBits * s) / 2 ^ fixedBits =
      2 ^ fixedBits * (r * s) := by
    field_simp
  rwa [slack, amount] at product

section Series

variable {x : ℝ} (nonneg : 0 ≤ x) (small : x ≤ 1 / 3)

include nonneg small

/-- The odd powers of a number that is at most one third. -/
theorem odd_truncates {square odd j : ℕ} (squared : Truncates (5 / 3) square (2 ^ fixedBits * x ^ 2))
    (power : Truncates 2 odd (2 ^ fixedBits * x ^ (2 * j + 1))) :
    Truncates 2 ((odd * square) >>> fixedBits) (2 ^ fixedBits * x ^ (2 * (j + 1) + 1)) := by
  have first : x ^ (2 * j + 1) ≤ 1 / 3 := by
    rw [pow_succ]
    exact (mul_le_of_le_one_left nonneg (pow_le_one₀ nonneg (by linarith))).trans small
  have second : x ^ 2 ≤ 1 / 9 := by nlinarith
  have product := power.scaled_mul squared
  rw [← pow_add] at product
  exact product.mono (by linarith)

/-- The sum of terms falls short by three units for each of them. -/
theorem terms_truncates {square : ℕ} (squared : Truncates (5 / 3) square (2 ^ fixedBits * x ^ 2))
    (fuel : ℕ) : ∀ {odd j : ℕ}, Truncates 2 odd (2 ^ fixedBits * x ^ (2 * j + 1)) →
      Truncates (3 * fuel) (twiceArtanh.terms square odd (2 * j + 1) fuel) (2 ^ fixedBits *
        ∑ i ∈ Finset.range fuel, x ^ (2 * (j + i) + 1) / (2 * (j + i : ℕ) + 1)) := by
  induction fuel with
  | zero =>
    intro odd j power
    rw [twiceArtanh.terms]
    simpa using Truncates.exact 0
  | succ fuel ih =>
    intro odd j power
    have term := power.div (2 * j + 1)
    have rest := ih (odd_truncates nonneg small squared power)
    have slack : 2 / ((2 * j + 1 : ℕ) : ℝ) + 1 ≤ 3 := by
      have one : (1 : ℝ) ≤ (2 * j + 1 : ℕ) := by exact_mod_cast Nat.le_add_left 1 (2 * j)
      have bound := div_le_self zero_le_two one
      linarith
    have total : 3 + 3 * (fuel : ℝ) = 3 * (fuel + 1 : ℕ) := by
      push_cast
      ring
    have series : ∑ i ∈ Finset.range (fuel + 1),
          x ^ (2 * (j + i) + 1) / (2 * (j + i : ℕ) + 1 : ℝ) =
        x ^ (2 * j + 1) / (2 * j + 1 : ℕ) + ∑ i ∈ Finset.range fuel,
          x ^ (2 * (j + 1 + i) + 1) / (2 * (j + 1 + i : ℕ) + 1 : ℝ) := by
      rw [Finset.sum_range_succ', add_comm]
      congr 1
      · rw [add_zero]
        push_cast
        rfl
      · exact Finset.sum_congr rfl fun i _ => by rw [add_assoc j 1, add_comm 1 i]
    rw [twiceArtanh.terms, series, mul_add, ← mul_div_assoc, ← total]
    exact (term.mono slack).add rest

end Series

/-- The series gives the logarithm of a quotient from one to two to within half a unit. -/
theorem log_near_series {x : ℝ} (nonneg : 0 ≤ x) (small : x ≤ 1 / 3) :
    let sum := 2 ^ fixedBits * ∑ i ∈ Finset.range 60, x ^ (2 * (0 + i) + 1) / (2 * (0 + i : ℕ) + 1)
    2 * sum ≤ 2 ^ fixedBits * Real.log ((1 + x) / (1 - x)) ∧
      2 ^ fixedBits * Real.log ((1 + x) / (1 - x)) ≤ 2 * sum + 1 := by
  have above : x < 1 := by linarith
  have lower := Real.sum_range_le_log_div nonneg above 60
  have upper := Real.log_div_le_sum_range_add nonneg above 60
  have square : x ^ 2 ≤ 1 / 9 := by nlinarith
  have power : x ^ (2 * 60 + 1) ≤ (1 / 3) ^ (2 * 60 + 1) := pow_le_pow_left₀ nonneg small _
  have rest : 2 ^ fixedBits * (x ^ (2 * 60 + 1) / (1 - x ^ 2)) ≤ 1 / 2 := by
    rw [fixedBits, ← mul_div_assoc, div_le_iff₀ (by linarith)]
    calc 2 ^ 160 * x ^ (2 * 60 + 1) ≤ 2 ^ 160 * (1 / 3) ^ (2 * 60 + 1) := by gcongr
      _ ≤ 1 / 2 * (1 - 1 / 9) := by norm_num
      _ ≤ 1 / 2 * (1 - x ^ 2) := by linarith
  have scale : (0 : ℝ) ≤ 2 ^ fixedBits := by positivity
  have lower := mul_le_mul_of_nonneg_left lower scale
  have upper := mul_le_mul_of_nonneg_left upper scale
  rw [mul_add] at upper
  simp only [zero_add]
  constructor <;> linarith

/-- The fixed-point number falls short of the logarithm that it stands for by a few hundred
units. -/
theorem twiceArtanh_truncates {num den : ℕ} (small : 3 * num ≤ den) (positive : 0 < den) :
    Truncates 361 (twiceArtanh num den)
      (2 ^ fixedBits * Real.log ((den + num) / (den - num))) := by
  have denPositive : (0 : ℝ) < den := Nat.cast_pos.mpr positive
  have nonneg : (0 : ℝ) ≤ num / den := by positivity
  have third : (num / den : ℝ) ≤ 1 / 3 := by
    rw [div_le_div_iff₀ denPositive three_pos]
    exact_mod_cast (by omega : num * 3 ≤ 1 * den)
  have argument : Truncates 1 ((num <<< fixedBits) / den) (2 ^ fixedBits * (num / den)) := by
    have quotient := (Truncates.exact (num <<< fixedBits)).div den
    rw [Nat.shiftLeft_eq] at quotient ⊢
    push_cast at quotient
    rwa [zero_div, zero_add, mul_comm (num : ℝ), mul_div_assoc] at quotient
  have quotient : (1 + num / den : ℝ) / (1 - num / den) = (den + num) / (den - num) := by
    field_simp
  rcases log_near_series nonneg third with ⟨lower, upper⟩
  rw [quotient] at lower upper
  rw [twiceArtanh]
  generalize (num <<< fixedBits) / den = y at argument ⊢
  generalize (num / den : ℝ) = x at *
  have squared : Truncates (5 / 3) ((y * y) >>> fixedBits) (2 ^ fixedBits * x ^ 2) := by
    rw [sq x]
    exact (argument.scaled_mul argument).mono (by linarith)
  have first : Truncates 2 y (2 ^ fixedBits * x ^ (2 * 0 + 1)) := by
    rw [mul_zero, zero_add, pow_one]
    exact argument.mono one_le_two
  have sum := terms_truncates nonneg third squared 60 first
  have slack : (3 * (60 : ℕ) : ℝ) = 180 := by norm_num
  rw [slack] at sum
  constructor
  · rw [Nat.cast_mul, Nat.cast_ofNat]
    linarith [sum.le]
  · rw [Nat.cast_mul, Nat.cast_ofNat]
    linarith [sum.near]

end ExactRoots.Binary64
