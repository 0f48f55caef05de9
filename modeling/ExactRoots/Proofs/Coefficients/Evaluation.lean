import ExactRoots.Proofs.Coefficients.Polynomial

/-!
# Horner's rule on exact coefficients

On exact coefficients and at an exact point Horner's rule computes the value of
the polynomial, and it never makes an expression.
-/

namespace ExactRoots

open Polynomial Outcome

namespace Value

/-- No exact value is floating, so that exact ones are multiplied out at once. -/
theorem isMixed_of_gaussian {vs : List Value} (exact : ∀ v ∈ vs, v.IsGaussian) :
    Coefficients.isMixed vs = false := by
  rw [Coefficients.isMixed, Bool.and_eq_false_iff]
  right
  rw [List.any_eq_false]
  intro v member
  have isGaussian := exact v member
  cases v with
  | inexact x => contradiction
  | decimal d => contradiction
  | _ => exact Bool.false_ne_true

end Value

namespace Coefficients

open Value

/-- Horner's rule from an accumulator `u` evaluates the polynomial with one more leading
coefficient. -/
theorem hornerFrom_computes {cs : Coefficients} {x acc : Value} {r u : Gaussian}
    (exact : cs.AllGaussian) (point : x.gaussian? = some r) (start : acc.gaussian? = some u) :
    Computes (hornerFrom x acc cs) (eval r (Gaussian.polynomial (u :: cs.numbers))) := by
  induction cs generalizing acc u with
  | nil => exact ⟨acc, rfl, by simpa [numbers] using start⟩
  | cons c cs ih =>
    obtain ⟨first, rest⟩ := List.forall_mem_cons.mp exact
    rcases mul_computes start point with ⟨product, multiplied, productNumber⟩
    rcases add_computes productNumber first.gaussian?_eq with ⟨sum, added, sumNumber⟩
    have step : hornerFrom x acc (c :: cs) = hornerFrom x sum cs := by
      simp [hornerFrom, multiplied, added]
    have shifted : eval r (Gaussian.polynomial (u :: numbers (c :: cs))) =
        eval r (Gaussian.polynomial ((u * r + c.number) :: numbers cs)) := by
      have split : numbers (c :: cs) = c.number :: numbers cs := rfl
      rw [split, Gaussian.polynomial_cons, Gaussian.polynomial_cons, Gaussian.polynomial_cons]
      simp only [List.length_cons, eval_add, eval_mul, eval_C, eval_pow, eval_X]
      ring
    rw [step, shifted]
    exact ih rest sumNumber

/-- The value of exact coefficients at an exact point is the canonical one of the value of
their polynomial. -/
theorem evaluate_of_gaussian? {cs : Coefficients} {x : Value} {r : Gaussian}
    (exact : cs.AllGaussian) (point : x.gaussian? = some r) :
    cs.evaluate x = .ok (ofGaussian (eval r cs.polynomial)) := by
  have unmixed : isMixed (x :: cs) = false :=
    isMixed_of_gaussian (List.forall_mem_cons.mpr ⟨by simp [IsGaussian, point], exact⟩)
  have start : (Value.int 0).gaussian? = some 0 := rfl
  rcases hornerFrom_computes exact point start with ⟨value, computed, number⟩
  rw [Gaussian.polynomial_cons, C_0, zero_mul, zero_add] at number
  simp [evaluate, horner, unmixed, computed, simplest_of_gaussian? number, polynomial]

end Coefficients

end ExactRoots
