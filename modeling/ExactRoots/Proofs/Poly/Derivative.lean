import ExactRoots.Proofs.Poly.Exact
import Mathlib.RingTheory.Polynomial.Pochhammer

/-!
# Derivatives of polynomials with exact coefficients

The derivative of any order is the formal one.  For an order above the number of
coefficients some of them are still taken up, but each is multiplied by zero on the way
down from its power, so that all coefficients are stripped.
-/

namespace ExactRoots

open Polynomial Outcome

namespace Gaussian

/-- Coefficients from the power `power` down, each times the descending factors from its
power on. -/
noncomputable def differentiate (order : Nat) : (power : Int) → List Gaussian → List Gaussian
  | _, [] => []
  | power, u :: us =>
    u * (descPochhammer Gaussian order).eval (power : Gaussian) ::
      differentiate order (power - 1) us

theorem length_differentiate (order : Nat) (power : Int) (us : List Gaussian) :
    (differentiate order power us).length = us.length := by
  induction us generalizing power with
  | nil => rfl
  | cons u us ih => rw [differentiate, List.length_cons, ih, List.length_cons]

theorem polynomial_append (us vs : List Gaussian) :
    polynomial (us ++ vs) = polynomial us * X ^ vs.length + polynomial vs := by
  induction us with
  | nil => simp
  | cons u us ih =>
    rw [List.cons_append, polynomial_cons, polynomial_cons, ih, List.length_append, pow_add]
    ring

/-- Coefficients whose powers are not below the order give those of the derivative. -/
theorem polynomial_differentiate (order : Nat) (us : List Gaussian) :
    polynomial (differentiate order (us.length + order - 1) us) =
      derivative^[order] (polynomial us * X ^ order) := by
  induction us with
  | nil => simp [differentiate]
  | cons u us ih =>
    have power : ((u :: us).length + order - 1 : Int) = (us.length + order : Nat) := by
      push_cast [List.length_cons]
      ring
    have lower : ((us.length + order : Nat) : Int) - 1 = us.length + order - 1 := by
      push_cast
      ring
    have lead : derivative^[order] (C u * X ^ us.length * X ^ order) =
        C (u * ((us.length + order).descFactorial order : Gaussian)) * X ^ us.length := by
      rw [mul_assoc, ← pow_add, iterate_derivative_C_mul, iterate_derivative_X_pow_eq_C_mul,
        Nat.add_sub_cancel, C_mul, mul_assoc]
    rw [power, differentiate, polynomial_cons, length_differentiate, lower, ih, Int.cast_natCast,
      descPochhammer_eval_eq_descFactorial, polynomial_cons, add_mul, iterate_map_add, lead]

/-- Coefficients whose powers are below the order vanish. -/
theorem eq_zero_of_mem_differentiate {order power : Nat} (below : power < order)
    {us : List Gaussian} (length : us.length ≤ power + 1) :
    ∀ v ∈ differentiate order power us, v = 0 := by
  induction us generalizing power with
  | nil => simp [differentiate]
  | cons u us ih =>
    rw [differentiate, List.forall_mem_cons, Int.cast_natCast,
      descPochhammer_eval_eq_descFactorial, Nat.descFactorial_of_lt below]
    refine ⟨by simp, ?_⟩
    rcases power with _ | power
    · obtain rfl : us = [] := by simpa using length
      simp [differentiate]
    · have lower : ((power + 1 : Nat) : Int) - 1 = power := by
        push_cast
        ring
      rw [lower]
      exact ih (by omega) (by simpa using length)

end Gaussian

namespace Poly

open Coefficients Value

/-- A coefficient is multiplied by the descending factors. -/
theorem fallingProduct_computes {c : Value} {u : Gaussian} (denoted : c.gaussian? = some u)
    (factor : Int) (count : Nat) : Computes (fallingProduct c factor count)
      (u * (descPochhammer Gaussian count).eval (factor : Gaussian)) := by
  induction count generalizing c u factor with
  | zero => exact ⟨c, rfl, by simpa using denoted⟩
  | succ count ih =>
    have number : (Value.int factor).gaussian? = some (factor : Gaussian) := rfl
    rcases mul_computes denoted number with ⟨product, multiplied, productNumber⟩
    have step := ih productNumber (factor - 1)
    rw [fallingProduct, multiplied, ok_bind, descPochhammer_succ_left]
    simpa [mul_assoc] using step

theorem differentiate_computes {cs : Coefficients} (exact : cs.AllGaussian) (order : Nat)
    (power : Int) : ∃ ds : Coefficients, differentiate order power cs = .ok ds ∧ ds.AllGaussian ∧
      ds.numbers = Gaussian.differentiate order power cs.numbers := by
  induction cs generalizing power with
  | nil => exact ⟨[], rfl, by simp [AllGaussian], rfl⟩
  | cons c cs ih =>
    obtain ⟨first, rest⟩ := List.forall_mem_cons.mp exact
    rcases fallingProduct_computes first.gaussian?_eq power order with ⟨d, multiplied, number⟩
    rcases ih rest (power - 1) with ⟨ds, computed, exactRest, numbers⟩
    refine ⟨d :: ds, by simp [differentiate, multiplied, computed], ?_, ?_⟩
    · exact List.forall_mem_cons.mpr ⟨by simp [IsGaussian, number], exactRest⟩
    · rw [numbers_cons, number_of_gaussian? number, numbers]
      rfl

/-- The coefficients that are taken up give the formal derivative. -/
theorem polynomial_differentiate_take (us : List Gaussian) (order : Nat) :
    Gaussian.polynomial (Gaussian.differentiate order (us.length - 1 : Nat)
      (us.take (leadingCount us.length order))) =
      Polynomial.derivative^[order] (Gaussian.polynomial us) := by
  unfold leadingCount
  split
  next within =>
    have split := List.take_append_drop (us.length - order) us
    have frontLength : (us.take (us.length - order)).length = us.length - order := by simp
    have backLength : (us.drop (us.length - order)).length = order := by
      rw [List.length_drop]
      omega
    generalize us.take (us.length - order) = front at split frontLength
    generalize us.drop (us.length - order) = back at split backLength
    have vanishes : Polynomial.derivative^[order] (Gaussian.polynomial back) = 0 := by
      apply iterate_derivative_eq_zero_of_degree_lt
      rw [← backLength]
      exact Gaussian.degree_polynomial_lt back
    rw [← split, Gaussian.polynomial_append, backLength, iterate_map_add, vanishes, add_zero,
      ← Gaussian.polynomial_differentiate]
    rcases front with _ | ⟨u, us'⟩
    · rfl
    · have power : (((u :: us' ++ back).length - 1 : Nat) : Int) =
          (u :: us').length + order - 1 := by
        rw [List.length_append, backLength, List.length_cons]
        omega
      rw [power]
  next beyond =>
    have short : (us.take (us.length - (order - us.length))).length ≤ us.length - 1 + 1 := by
      rw [List.length_take]
      omega
    have below : us.length - 1 < order := by omega
    have zeros := Gaussian.eq_zero_of_mem_differentiate below short
    rw [← Gaussian.polynomial_strip, Gaussian.strip_eq_nil_iff.mpr zeros, Gaussian.polynomial_nil,
      iterate_derivative_eq_zero_of_degree_lt]
    exact (Gaussian.degree_polynomial_lt us).trans (by exact_mod_cast Nat.lt_of_not_le beyond)

theorem derivative_represents {p : Poly} (exact : p.coefficients.AllGaussian) (order : Nat) :
    ∃ d, p.derivative order = .ok d ∧
      d.Represents (Polynomial.derivative^[order] p.coefficients.polynomial) := by
  let leading := p.coefficients.take (leadingCount p.coefficients.length order)
  have leadingExact : AllGaussian leading := fun c member => exact c (List.mem_of_mem_take member)
  rcases differentiate_computes leadingExact order p.degree with
    ⟨ds, computed, dsExact, numbers⟩
  rcases ofCoefficients_represents dsExact with ⟨d, built, represents⟩
  have denoted : ds.polynomial = Polynomial.derivative^[order] p.coefficients.polynomial := by
    have taken : Coefficients.numbers leading =
        p.coefficients.numbers.take (leadingCount p.coefficients.numbers.length order) := by
      rw [length_numbers]
      exact List.map_take
    rw [Coefficients.polynomial, numbers, taken, Poly.degree, ← length_numbers,
      polynomial_differentiate_take, Coefficients.polynomial]
  refine ⟨d, ?_, denoted ▸ represents⟩
  change (differentiate order p.degree leading >>= ofCoefficients) = .ok d
  rw [computed, ok_bind, built]

theorem Represents.eq_zero {p : Poly} (represents : p.Represents 0) : p = zero := by
  have empty : zero.Represents 0 := ⟨rfl, by simp [zero, Coefficients.polynomial, numbers]⟩
  exact (represents.eq_iff empty).mpr rfl

/-- The derivative of order `n` of a polynomial with exact coefficients is the formal one: it is
empty above the degree, and derivatives of derivatives are those of the sum of the orders. -/
theorem derivative_exact {p : Poly} (exact : p.coefficients.AllGaussian) (n : Nat) :
    ∃ d, p.derivative n = .ok d ∧ d.coefficients.AllGaussian ∧
      (∀ k, d.coefficients.polynomial.coeff k =
        ((k + n).descFactorial n : Gaussian) * p.coefficients.polynomial.coeff (k + n)) ∧
      (p.coefficients.polynomial.natDegree < n → d = zero) ∧
      ∀ m, ∃ e f, d.derivative m = .ok e ∧ p.derivative (n + m) = .ok f ∧
        e.equals f = .ok true := by
  rcases derivative_represents exact n with ⟨d, computed, represents⟩
  refine ⟨d, computed, represents.allGaussian, ?_, ?_, ?_⟩
  · intro k
    rw [represents.polynomial, coeff_iterate_derivative, nsmul_eq_mul]
  · intro above
    rw [iterate_derivative_eq_zero above] at represents
    exact represents.eq_zero
  · intro m
    rcases derivative_represents represents.allGaussian m with ⟨e, again, left⟩
    rcases derivative_represents exact (n + m) with ⟨f, once, right⟩
    rcases left.equals_eq_ok right with ⟨same, compared, decides⟩
    refine ⟨e, f, again, once, ?_⟩
    rw [compared, decides.mpr]
    rw [represents.polynomial, ← Function.iterate_add_apply, Nat.add_comm]

/-- An order above the number of coefficients. -/
theorem derivative_exact_beyond :
    let p : Poly := ⟨[.int 3, .frac (1 / 2), .exact 0 1 (by decide), .int 5]⟩
    p.coefficients.AllGaussian ∧ ∃ d, p.derivative 6 = .ok d ∧ d.coefficients.AllGaussian ∧
      (∀ k, d.coefficients.polynomial.coeff k =
        ((k + 6).descFactorial 6 : Gaussian) * p.coefficients.polynomial.coeff (k + 6)) ∧
      (p.coefficients.polynomial.natDegree < 6 → d = zero) ∧
      ∀ m, ∃ e f, d.derivative m = .ok e ∧ p.derivative (6 + m) = .ok f ∧
        e.equals f = .ok true := by
  intro p
  have exact : p.coefficients.AllGaussian := by simp [AllGaussian, p, IsGaussian, gaussian?]
  exact ⟨exact, derivative_exact exact 6⟩

end Poly

end ExactRoots
