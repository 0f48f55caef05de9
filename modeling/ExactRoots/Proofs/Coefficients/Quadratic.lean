import ExactRoots.Coefficients.Quadratic
import ExactRoots.Proofs.Coefficients.Polynomial
import ExactRoots.Proofs.Value.SquareRoot
import Mathlib.Tactic.LinearCombination

/-!
# Exact closed formulas

Where the discriminant of exact coefficients is a square of a Gaussian
rational, the quadratic formula gives two exact roots, and the polynomial is the
product of its linear factors.
-/

namespace ExactRoots

open Polynomial Outcome Value

section Formula

variable {a b c : Value} {α β γ : Gaussian} (first : a.gaussian? = some α)
  (second : b.gaussian? = some β) (third : c.gaussian? = some γ)

include first second

/-- The discriminant of exact coefficients is exact. -/
theorem discriminant_of_gaussian? (third : c.gaussian? = some γ) :
    discriminant a b c = .ok (ofGaussian (β * β - 4 * α * γ)) := by
  have four : (Value.int 4).gaussian? = some (4 : Gaussian) := rfl
  rcases mul_computes second second with ⟨square, squared, squareNumber⟩
  rcases mul_computes four first with ⟨scaled, scaling, scaledNumber⟩
  rcases mul_computes scaledNumber third with ⟨product, multiplied, productNumber⟩
  rcases sub_computes squareNumber productNumber with ⟨difference, subtracted, differenceNumber⟩
  simp [discriminant, squared, scaling, multiplied, subtracted,
    simplest_of_gaussian? differenceNumber]

/-- The quadratic formula on an exact root of the discriminant. -/
theorem quadraticFormula_of_gaussian? {root : Value} {ρ : Gaussian}
    (rootNumber : root.gaussian? = some ρ) (nonzero : α ≠ 0) :
    quadraticFormula a b root =
      .ok (Coefficients.ofGaussians [(-β + ρ) / (2 * α), (-β - ρ) / (2 * α)]) := by
  have two : (Value.int 2).gaussian? = some (2 : Gaussian) := rfl
  have doubleNonzero : (2 * α : Gaussian) ≠ 0 := mul_ne_zero two_ne_zero nonzero
  rcases mul_computes two first with ⟨double, doubled, doubleNumber⟩
  rcases neg_computes second with ⟨negated, negation, negatedNumber⟩
  rcases add_computes negatedNumber rootNumber with ⟨sum, added, sumNumber⟩
  rcases sub_computes negatedNumber rootNumber with ⟨gap, subtracted, gapNumber⟩
  have divisor := gaussian?_ofGaussian (2 * α)
  have upper := quo_of_gaussian? (gaussian?_ofGaussian (-β + ρ)) divisor doubleNonzero
  have lower := quo_of_gaussian? (gaussian?_ofGaussian (-β - ρ)) divisor doubleNonzero
  simp [quadraticFormula, doubled, negation, added, subtracted,
    simplest_of_gaussian? doubleNumber, simplest_of_gaussian? sumNumber,
    simplest_of_gaussian? gapNumber, upper, lower]

/-- Exact coefficients are brought into simplest form and need no conversion. -/
theorem coerceDecimals_simplest (third : c.gaussian? = some γ) :
    coerceDecimals [a.simplest, b.simplest, c.simplest] =
      .ok [ofGaussian α, ofGaussian β, ofGaussian γ] := by
  rw [simplest_of_gaussian? first, simplest_of_gaussian? second, simplest_of_gaussian? third]
  exact Coefficients.coerceDecimals_ofGaussians [α, β, γ]

/-- A quadratic with a square discriminant has two exact roots. -/
theorem solveQuadratic_of_isSquare (third : c.gaussian? = some γ) (nonzero : α ≠ 0)
    {w : Gaussian} (square : β * β - 4 * α * γ = w * w) :
    solveQuadratic a b c =
      .ok (Coefficients.ofGaussians
        [(-β + w.principal) / (2 * α), (-β - w.principal) / (2 * α)]) := by
  have coerced := coerceDecimals_simplest first second third
  have checked : (ofGaussian α).isZero = .ok false := by
    simp [isZero_of_gaussian? (gaussian?_ofGaussian α), nonzero]
  have root : (ofGaussian (w * w)).sqrt = .ok (ofGaussian w.principal) :=
    sqrt_mul_self (gaussian?_ofGaussian _)
  have uncoerced : coerceDecimals [ofGaussian α, ofGaussian β, ofGaussian w.principal] =
      .ok [ofGaussian α, ofGaussian β, ofGaussian w.principal] :=
    Coefficients.coerceDecimals_ofGaussians [α, β, w.principal]
  have formula := quadraticFormula_of_gaussian? (gaussian?_ofGaussian α)
    (gaussian?_ofGaussian β) (gaussian?_ofGaussian w.principal) nonzero
  have discriminated := discriminant_of_gaussian? (gaussian?_ofGaussian α)
    (gaussian?_ofGaussian β) (gaussian?_ofGaussian γ)
  rw [square] at discriminated
  simp only [solveQuadratic, coerced, ok_bind, checked, discriminated, root, if_false,
    Bool.false_eq_true]
  split
  next => simp only [uncoerced, ok_bind, formula]
  next => exact formula

omit first in
/-- A linear equation has one exact root. -/
theorem quo_neg_of_gaussian? (third : c.gaussian? = some γ) (nonzero : β ≠ 0) :
    (do (← c.neg).quo b) = .ok (ofGaussian (-γ / β)) := by
  rcases neg_computes third with ⟨negated, negation, negatedNumber⟩
  simp [negation, quo_of_gaussian? negatedNumber second nonzero]

/-- Without a quadratic term the linear equation is solved. -/
theorem solveQuadratic_of_linear (third : c.gaussian? = some γ) (zero : α = 0)
    (nonzero : β ≠ 0) : solveQuadratic a b c = .ok [ofGaussian (-γ / β)] := by
  have coerced := coerceDecimals_simplest first second third
  have degenerate : (ofGaussian α).isZero = .ok true := by
    rw [isZero_of_gaussian? (gaussian?_ofGaussian α), decide_eq_true zero]
  have linear : (ofGaussian β).isZero = .ok false := by
    simp [isZero_of_gaussian? (gaussian?_ofGaussian β), nonzero]
  rcases bind_eq_ok_iff.mp (quo_neg_of_gaussian? (gaussian?_ofGaussian β)
    (gaussian?_ofGaussian γ) nonzero) with ⟨negated, negation, divided⟩
  simp only [solveQuadratic, coerced, ok_bind, degenerate, linear, if_true, if_false,
    Bool.false_eq_true, negation, divided, pure_eq_ok]

end Formula

/-- The roots that the formula gives split the quadratic into linear factors. -/
theorem quadratic_eq_mul {α β γ ρ : Gaussian} (nonzero : α ≠ 0)
    (square : β * β - 4 * α * γ = ρ * ρ) :
    Gaussian.polynomial [α, β, γ] =
      C α * ((X - C ((-β + ρ) / (2 * α))) * (X - C ((-β - ρ) / (2 * α)))) := by
  have sum : α * ((-β + ρ) / (2 * α) + (-β - ρ) / (2 * α)) = -β := by
    field_simp
    ring
  have product : α * ((-β + ρ) / (2 * α) * ((-β - ρ) / (2 * α))) = γ := by
    field_simp
    linear_combination square
  have linear : C α * (C ((-β + ρ) / (2 * α)) + C ((-β - ρ) / (2 * α))) = -C β := by
    rw [← C_add, ← C_mul, sum, C_neg]
  have constant : C α * (C ((-β + ρ) / (2 * α)) * C ((-β - ρ) / (2 * α))) = C γ := by
    rw [← C_mul, ← C_mul, product]
  simp only [Gaussian.polynomial_cons, Gaussian.polynomial_nil, List.length_cons,
    List.length_nil]
  linear_combination X * linear - constant

/-- The root of a linear polynomial splits it. -/
theorem linear_eq_mul {β γ : Gaussian} (nonzero : β ≠ 0) :
    Gaussian.polynomial [β, γ] = C β * (X - C (-γ / β)) := by
  have constant : C β * C (-γ / β) = -C γ := by
    rw [← C_mul, mul_div_cancel₀ _ nonzero, C_neg]
  simp only [Gaussian.polynomial_cons, Gaussian.polynomial_nil, List.length_cons,
    List.length_nil]
  linear_combination constant

/-- Exact equations of degree two with a square discriminant, and those of degree one, are solved
by exact values in simplest form: the roots split the quadratic, and the one root solves the linear
equation. -/
theorem solveQuadratic_exact {a b c : Value} (first : a.IsGaussian) (second : b.IsGaussian)
    (third : c.IsGaussian) :
    (a.number ≠ 0 → IsSquare (b.number * b.number - 4 * a.number * c.number) →
      ∃ r₁ r₂, solveQuadratic a b c = .ok [r₁, r₂] ∧
        (∀ r ∈ [r₁, r₂], r.IsGaussian ∧ r.simplest = r) ∧
        C a.number * (X - C r₁.number) * (X - C r₂.number) =
          C a.number * X ^ 2 + C b.number * X + C c.number) ∧
    (a.number = 0 → b.number ≠ 0 →
      ∃ r, solveQuadratic a b c = .ok [r] ∧ r.IsGaussian ∧ r.simplest = r ∧
        b.number * r.number + c.number = 0) := by
  constructor
  · rintro nonzero ⟨w, square⟩
    have rooted : b.number * b.number - 4 * a.number * c.number = w.principal * w.principal := by
      rw [square, w.principal_mul_self]
    have factors := quadratic_eq_mul nonzero rooted
    refine ⟨_, _, solveQuadratic_of_isSquare first.gaussian?_eq second.gaussian?_eq
      third.gaussian?_eq nonzero square, ?_, ?_⟩
    · intro r member
      rcases List.mem_pair.mp member with rfl | rfl <;> simp
    · rw [number_ofGaussian, number_ofGaussian, mul_assoc, ← factors]
      simp [Gaussian.polynomial_cons, add_assoc]
  · intro zero nonzero
    refine ⟨_, solveQuadratic_of_linear first.gaussian?_eq second.gaussian?_eq
      third.gaussian?_eq zero nonzero, by simp, by simp, ?_⟩
    rw [number_ofGaussian, mul_div_cancel₀ _ nonzero, neg_add_cancel]

/-- The roots `i` and `1 / 2` of `2 * x ^ 2 - (1 + 2 * i) * x + i` are found, and so is the root
of its linear part. -/
theorem solveQuadratic_exact_mixed :
    let b : Value := .exact (-1) (-2) (by decide)
    let c : Value := .exact 0 1 (by decide)
    (∃ r₁ r₂, solveQuadratic (.int 2) b c = .ok [r₁, r₂] ∧
      (∀ r ∈ [r₁, r₂], r.IsGaussian ∧ r.simplest = r) ∧
      C (Value.int 2).number * (X - C r₁.number) * (X - C r₂.number) =
        C (Value.int 2).number * X ^ 2 + C b.number * X + C c.number) ∧
    ∃ r, solveQuadratic (.int 0) b c = .ok [r] ∧ r.IsGaussian ∧ r.simplest = r ∧
      b.number * r.number + c.number = 0 := by
  intro b c
  have square : b.number * b.number - 4 * (Value.int 2).number * c.number =
      (⟨1, -2⟩ : Gaussian) * ⟨1, -2⟩ := by decide +kernel
  have quadratic : (Value.int 2).number ≠ 0 := by decide
  have linear : b.number ≠ 0 := by decide
  have two : (Value.int 2).IsGaussian := rfl
  have zero : (Value.int 0).IsGaussian := rfl
  have second : b.IsGaussian := rfl
  have third : c.IsGaussian := rfl
  exact ⟨(solveQuadratic_exact two second third).1 quadratic ⟨_, square⟩,
    (solveQuadratic_exact zero second third).2 rfl linear⟩

end ExactRoots
