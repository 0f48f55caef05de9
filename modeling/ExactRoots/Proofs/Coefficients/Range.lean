import ExactRoots.Proofs.Coefficients.Quadratic
import ExactRoots.Proofs.Value.Range

/-!
# The quadratic formula in range

An inexact root of the discriminant leads to two roots while the coefficients are
neither too large nor too small.
-/

namespace ExactRoots

open Outcome Value
open Binary64 (exponentField exponentField_ofRat_le le_exponentField_ofRat nearestPattern
  overflowThreshold)

section Formula

variable {k l d e : Nat} {α β : Rat} {a : Inexact}

/-- The quadratic formula on an inexact root of the discriminant. -/
theorem quadraticFormula_of_below (normal : 1 < k) (room : Inexact.Room (k + 2) l)
    (enough : 309 ≤ d) (divisor : Divisor l e (2 * α)) (inside : |β| < overflowThreshold)
    (upper : exponentField (Binary64.ofRat (-β)) < k) (below : a.Below k) :
    ∃ r₁ r₂, quadraticFormula (ofRat α) (ofRat β) (.inexact a) = .ok [r₁, r₂] ∧
      Tame (k + 1028 - l) (d + e) r₁ ∧ Tame (k + 1028 - l) (d + e) r₂ := by
  have two : (Value.int 2).gaussian? = some (.ofRat 2) := rfl
  rcases mul_computes two (gaussian?_ofRat α) with ⟨double, doubled, doubleNumber⟩
  have simple : double.simplest = ofRat (2 * α) := by
    rw [simplest_of_gaussian? doubleNumber, ← Gaussian.ofRat_mul, ofGaussian_ofRat]
  have negated : |-β| < overflowThreshold := by rwa [abs_neg]
  have sums := room.sums
  have coefficient := Inexact.below_real (by omega) upper
  have sum := tame_simplest (coefficient.add normal (by omega) below) (by omega) enough
  have gap := tame_simplest (coefficient.sub normal (by omega) below) (by omega) enough
  rcases quo_of_tame room enough sum divisor with ⟨r₁, first, tame₁⟩
  rcases quo_of_tame room enough gap divisor with ⟨r₂, second, tame₂⟩
  refine ⟨r₁, r₂, ?_, tame₁, tame₂⟩
  simp [quadraticFormula, doubled, simple, neg_ofRat, add_ofRat_inexact negated,
    sub_ofRat_inexact negated, first, second]

/-- The quadratic formula on a root of the discriminant that is exact or in range. -/
theorem quadraticFormula_of_rooted {root : Value} (normal : 1 < k)
    (room : Inexact.Room (k + 2) l) (enough : 309 ≤ d) (divisor : Divisor l e (2 * α))
    (sized : Sized e β) (inside : |β| < overflowThreshold)
    (upper : exponentField (Binary64.ofRat (-β)) < k) (rooted : Rooted k d root) :
    ∃ r₁ r₂, quadraticFormula (ofRat α) (ofRat β) root = .ok [r₁, r₂] ∧
      Rooted (k + 1028 - l) (d + 2 * e + 1) r₁ ∧ Rooted (k + 1028 - l) (d + 2 * e + 1) r₂ := by
  rcases rooted with ⟨ρ, rfl, re, im⟩ | ⟨a, rfl, below⟩
  · have nonzero : Gaussian.ofRat α ≠ 0 := by
      intro zero
      have none : α = 0 := congrArg Gaussian.re zero
      exact divisor.nonzero (by rw [none, mul_zero])
    have solved := quadraticFormula_of_gaussian? (gaussian?_ofRat α) (gaussian?_ofRat β)
      (gaussian?_ofGaussian ρ) nonzero
    have double : (2 : Gaussian) * .ofRat α = .ofRat (2 * α) := by
      rw [Gaussian.ofRat_mul]
      rfl
    have real := sized.neg.add re
    have real' := sized.neg.sub re
    have imaginary := (sized_zero (d := 0)).neg.add im
    have imaginary' := (sized_zero (d := 0)).neg.sub im
    refine ⟨_, _, solved, ?_, ?_⟩ <;> rw [double, Gaussian.div_ofRat] <;>
      refine .inl ⟨_, rfl, ?_, ?_⟩
    · exact (real.div divisor.sized).mono (by omega)
    · exact (imaginary.div divisor.sized).mono (by omega)
    · exact (real'.div divisor.sized).mono (by omega)
    · exact (imaginary'.div divisor.sized).mono (by omega)
  · rcases quadraticFormula_of_below normal room enough divisor inside upper below with
      ⟨r₁, r₂, solved, first, second⟩
    exact ⟨r₁, r₂, solved, (first.mono (by omega)).rooted, (second.mono (by omega)).rooted⟩

end Formula


section Sized

variable {α β γ : Rat}

/-- With a quadratic term, the root of the discriminant decides. -/
theorem solveQuadratic_ofRat (nonzero : α ≠ 0) :
    solveQuadratic (ofRat α) (ofRat β) (ofRat γ) =
      (do quadraticFormula (ofRat α) (ofRat β) (← (ofRat (β * β - 4 * α * γ)).sqrt)) := by
  have coerced := coerceDecimals_simplest (gaussian?_ofRat α) (gaussian?_ofRat β)
    (gaussian?_ofRat γ)
  have discriminated := discriminant_of_gaussian? (gaussian?_ofRat α) (gaussian?_ofRat β)
    (gaussian?_ofRat γ)
  rw [Gaussian.discriminant_ofRat, ofGaussian_ofRat] at discriminated
  simp only [ofGaussian_ofRat] at coerced
  cases rooted : (ofRat (β * β - 4 * α * γ)).sqrt with
  | error fault => simp [solveQuadratic, coerced, isZero_ofRat, nonzero, discriminated, rooted]
  | ok root =>
    have plain := sqrt_ofRat_plain _ root rooted
    have uncoerced : coerceDecimals [ofRat α, ofRat β, root] = .ok [ofRat α, ofRat β, root] := by
      apply coerceDecimals_of_plain
      simp [(ofRat_plain α).1, (ofRat_plain β).1, plain]
    simp [solveQuadratic, coerced, isZero_ofRat, nonzero, discriminated, rooted, uncoerced]

theorem ten_pow_lt_overflowThreshold : 5 * (10 ^ 150 * 10 ^ 150) < overflowThreshold := by
  have power : 10 ^ 150 * 10 ^ 150 = (10 ^ 3) ^ 100 := by rw [← pow_add, ← pow_mul]
  calc 5 * (10 ^ 150 * 10 ^ 150)
    _ ≤ 2 ^ 3 * (2 ^ 10) ^ 100 := by
      rw [power]
      exact Nat.mul_le_mul (by decide) (Nat.pow_le_pow_left (by decide) 100)
    _ = 2 ^ (3 + 10 * 100) := by rw [← pow_mul, ← pow_add]
    _ < 2 ^ 1023 := pow_lt_pow_right₀ one_lt_two (by decide)
    _ ≤ overflowThreshold := Binary64.two_pow_le_overflowThreshold

/-- The exponents of the bounds of a coefficient and of the discriminant. -/
theorem exponents_of_digits : nearestPattern (10 ^ 150) 1 / 2 ^ 52 < 1524 ∧
    524 ≤ nearestPattern 1 (10 ^ 150) / 2 ^ 52 ∧
    nearestPattern (5 * (10 ^ 150 * 10 ^ 150)) 1 / 2 ^ 52 < 2022 := by
  decide +kernel

theorem abs_lt_overflowThreshold_of_le {m : Nat} (small : m ≤ 5 * (10 ^ 150 * 10 ^ 150))
    (bounded : |α| ≤ (m : Rat)) : |α| < overflowThreshold :=
  bounded.trans_lt (Nat.cast_lt.mpr (small.trans_lt ten_pow_lt_overflowThreshold))

theorem Sized.abs_lt_overflowThreshold (sized : Sized 150 β) : |β| < overflowThreshold := by
  apply abs_lt_overflowThreshold_of_le (m := 10 ^ 150) (by norm_num)
  rw [Nat.cast_pow]
  exact sized.abs_le

theorem Sized.exponentField_neg_lt (sized : Sized 150 β) :
    exponentField (Binary64.ofRat (-β)) < 1524 := by
  apply lt_of_le_of_lt _ exponents_of_digits.1
  apply exponentField_ofRat_le sized.neg.abs_lt_overflowThreshold Nat.one_pos
  rw [Nat.cast_one, div_one, Nat.cast_pow]
  exact sized.neg.abs_le

theorem Sized.divisor (sized : Sized 150 α) (nonzero : α ≠ 0) : Divisor 524 151 (2 * α) := by
  have two : Sized 1 2 := Sized.intCast (n := 2) (by decide)
  have inside : |2 * α| < overflowThreshold := by
    apply abs_lt_overflowThreshold_of_le (m := 2 * 10 ^ 150) (by norm_num)
    rw [abs_mul, abs_two, Nat.cast_mul, Nat.cast_pow]
    exact mul_le_mul_of_nonneg_left sized.abs_le two_pos.le
  refine ⟨mul_ne_zero two_ne_zero nonzero, two.mul sized, inside, ?_⟩
  have lower := sized.le_abs nonzero
  apply exponents_of_digits.2.1.trans
  apply le_exponentField_ofRat inside (Nat.pow_pos (by decide))
  rw [abs_mul, abs_two, Nat.cast_one, Nat.cast_pow, Nat.cast_ofNat]
  linarith [abs_nonneg α]

/-- The discriminant of coefficients with at most 150 digits. -/
theorem Sized.abs_discriminant_le (first : Sized 150 α) (second : Sized 150 β)
    (third : Sized 150 γ) : |β * β - 4 * α * γ| ≤ ((5 * (10 ^ 150 * 10 ^ 150) : Nat) : Rat) := by
  rw [Nat.cast_mul, Nat.cast_mul, Nat.cast_pow]
  have large : (0 : Rat) ≤ 10 ^ 150 := pow_nonneg (by decide) _
  have square := mul_le_mul second.abs_le second.abs_le (abs_nonneg β) large
  have product := mul_le_mul first.abs_le third.abs_le (abs_nonneg γ) large
  calc |β * β - 4 * α * γ|
    _ ≤ |β * β| + |4 * α * γ| := abs_sub _ _
    _ = |β| * |β| + 4 * (|α| * |γ|) := by
      rw [abs_mul, abs_mul, abs_mul, abs_of_pos (four_pos (α := Rat)), mul_assoc]
    _ ≤ 10 ^ 150 * 10 ^ 150 + 4 * (10 ^ 150 * 10 ^ 150) := by linarith
    _ = _ := by ring

/-- A quadratic whose coefficients have at most 150 digits has two roots. -/
theorem solveQuadratic_of_sized (first : Sized 150 α) (second : Sized 150 β)
    (third : Sized 150 γ) (nonzero : α ≠ 0) :
    ∃ r₁ r₂, solveQuadratic (ofRat α) (ofRat β) (ofRat γ) = .ok [r₁, r₂] ∧
      Rooted 2028 905 r₁ ∧ Rooted 2028 905 r₂ := by
  have four : Sized 1 4 := Sized.intCast (n := 4) (by decide)
  have small := first.abs_discriminant_le second third
  have sized : Sized 602 (β * β - 4 * α * γ) :=
    (second.mul second).sub ((four.mul first).mul third)
  have inside : |β * β - 4 * α * γ| < overflowThreshold :=
    abs_lt_overflowThreshold_of_le le_rfl small
  have inside' : |(|β * β - 4 * α * γ|)| < overflowThreshold := by rwa [abs_abs]
  have below : exponentField (Binary64.ofRat |β * β - 4 * α * γ|) < 2022 := by
    apply lt_of_le_of_lt _ exponents_of_digits.2.2
    apply exponentField_ofRat_le inside' Nat.one_pos
    rwa [Nat.cast_one, div_one, abs_abs]
  have room : Inexact.Room (1524 + 2) 524 :=
    ⟨by decide, by decide, by decide, by decide, by decide⟩
  rcases sqrt_ofRat sized inside (by decide) (by decide) (by decide) below with
    ⟨root, taken, rooted⟩
  rcases quadraticFormula_of_rooted (by decide) room (by decide) (first.divisor nonzero)
    (second.mono (by decide)) second.abs_lt_overflowThreshold second.exponentField_neg_lt rooted
    with ⟨r₁, r₂, solved, rooted₁, rooted₂⟩
  refine ⟨r₁, r₂, ?_, rooted₁, rooted₂⟩
  rw [solveQuadratic_ofRat nonzero, taken, ok_bind, solved]

end Sized

end ExactRoots
