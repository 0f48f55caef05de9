import Mathlib.Algebra.Order.Field.Basic
import Mathlib.Algebra.Order.Ring.Rat
import Mathlib.Tactic.Linarith
import Mathlib.Tactic.Ring

/-!
# Proportions

Two numbers are near in proportion if their difference is a small part of the second
one.  Products, quotients and chains of near numbers are near, in a proportion that is a
little more than the sum of the single ones.
-/

namespace ExactRoots

/-- A number is within a proportion of another one. -/
def Near (δ x y : Rat) : Prop := |x - y| ≤ δ * y

namespace Near

variable {δ ε x y z x' y' : Rat}

theorem refl (x : Rat) : Near 0 x x := by simp [Near]

theorem mono (near : Near δ x y) (le : δ ≤ ε) (nonneg : 0 ≤ y) : Near ε x y :=
  le_trans near (mul_le_mul_of_nonneg_right le nonneg)

theorem le (near : Near δ x y) : x ≤ (1 + δ) * y := by
  have := (abs_le.mp near).2
  linarith

theorem ge (near : Near δ x y) : (1 - δ) * y ≤ x := by
  have := (abs_le.mp near).1
  linarith

theorem trans (first : Near δ x y) (second : Near ε y z) (nonneg : 0 ≤ δ) :
    Near (δ + ε + δ * ε) x z := by
  calc |x - z| ≤ |x - y| + |y - z| := abs_sub_le x y z
    _ ≤ δ * ((1 + ε) * z) + ε * z :=
      add_le_add (le_trans first (mul_le_mul_of_nonneg_left second.le nonneg)) second
    _ = (δ + ε + δ * ε) * z := by ring

theorem mul (first : Near δ x y) (second : Near ε x' y') (nonneg : 0 ≤ y) (nonneg' : 0 ≤ x')
    (proportion : 0 ≤ δ) : Near (δ + ε + δ * ε) (x * x') (y * y') := by
  calc |x * x' - y * y'| = |(x - y) * x' + y * (x' - y')| := by ring_nf
    _ ≤ |x - y| * x' + y * |x' - y'| := by
      refine le_trans (abs_add_le _ _) (le_of_eq ?_)
      rw [abs_mul, abs_mul, abs_of_nonneg nonneg, abs_of_nonneg nonneg']
    _ ≤ δ * y * ((1 + ε) * y') + y * (ε * y') :=
      add_le_add (mul_le_mul first second.le nonneg' (mul_nonneg proportion nonneg))
        (mul_le_mul_of_nonneg_left second nonneg)
    _ = (δ + ε + δ * ε) * (y * y') := by ring

theorem div (first : Near δ x y) (second : Near ε x' y') (nonneg : 0 ≤ y) (positive : 0 < y')
    (proportion : 0 ≤ δ + ε) (proper : ε < 1) : Near ((δ + ε) / (1 - ε)) (x / x') (y / y') := by
  have rest : 0 < 1 - ε := sub_pos.mpr proper
  have divisor : 0 < x' := (mul_pos rest positive).trans_le second.ge
  have crossed : |x * y' - x' * y| ≤ (δ + ε) * (y * y') := by
    calc |x * y' - x' * y| = |(x - y) * y' - y * (x' - y')| := by ring_nf
      _ ≤ |x - y| * y' + y * |x' - y'| := by
        refine le_trans (abs_sub _ _) (le_of_eq ?_)
        rw [abs_mul, abs_mul, abs_of_nonneg nonneg, abs_of_pos positive]
      _ ≤ δ * y * y' + y * (ε * y') :=
        add_le_add (mul_le_mul_of_nonneg_right first positive.le)
          (mul_le_mul_of_nonneg_left second nonneg)
      _ = (δ + ε) * (y * y') := by ring
  rw [Near, div_sub_div _ _ divisor.ne' positive.ne', abs_div, abs_of_pos (mul_pos divisor positive),
    div_mul_div_comm, div_le_div_iff₀ (mul_pos divisor positive) (mul_pos rest positive)]
  calc |x * y' - x' * y| * ((1 - ε) * y')
      ≤ (δ + ε) * (y * y') * ((1 - ε) * y') :=
        mul_le_mul_of_nonneg_right crossed (mul_pos rest positive).le
    _ ≤ (δ + ε) * (y * y') * x' :=
        mul_le_mul_of_nonneg_left second.ge (mul_nonneg proportion (mul_nonneg nonneg positive.le))
    _ = (δ + ε) * y * (x' * y') := by ring

theorem scale {c : Rat} (near : Near δ x y) (nonneg : 0 ≤ c) : Near δ (x * c) (y * c) := by
  rw [Near, ← sub_mul, abs_mul, abs_of_nonneg nonneg, ← mul_assoc]
  exact mul_le_mul_of_nonneg_right near nonneg

end Near

end ExactRoots
