import ExactRoots.Deflation.Snap
import ExactRoots.Proofs.Coefficients.Evaluation
import ExactRoots.Proofs.Inexact
import ExactRoots.Proofs.Value.Recovery

/-!
# Snapping to an exact root

A found root that is close enough to an exact one is replaced by it: every
candidate is the exact root, where the polynomial vanishes, and no residual is
smaller than zero.
-/

namespace ExactRoots.Deflation

open Value Outcome

/-! ## Choosing a candidate -/

/-- A choice is kept when no candidate has a smaller residual. -/
theorem choose_of_least {cs : Coefficients} {c : Choice} {vs : List Value}
    (replaced : c.replaced = true)
    (least : ∀ v ∈ vs, ∃ size, residual cs v = .ok size ∧ ¬ size < c.size) :
    choose cs c vs = .ok c := by
  induction vs with
  | nil => rfl
  | cons v vs ih =>
    obtain ⟨⟨size, measured, notLess⟩, rest⟩ := List.forall_mem_cons.mp least
    have kept : c.offer v size = c := by simp [Choice.offer, notLess, replaced]
    simp only [choose, measured, ok_bind, kept]
    exact ih rest

/-- A candidate that is no worse than the root takes its place. -/
theorem offer_of_le {root v : Value} {baseline size : Float} (noWorse : size ≤ baseline) :
    Choice.offer ⟨root, baseline, false⟩ v size = ⟨v, size, true⟩ := by
  simp [Choice.offer, noWorse]

/-! ## Residuals -/

/-- A residual that is a number is at least zero. -/
theorem zero_le_residual {cs : Coefficients} {x : Value} {size : Float}
    (measured : residual cs x = .ok size) (number : size.isNaN = false) : 0.0 ≤ size := by
  rcases bind_eq_ok_iff.mp measured with ⟨value, -, magnitude⟩
  rcases bind_eq_ok_iff.mp magnitude with ⟨inexact, -, absolute⟩
  split at absolute
  next bounded =>
    obtain rfl := Except.ok.inj absolute
    exact Inexact.zero_le_of_abs? bounded number
  next => contradiction

/-- An exact root leaves no residual. -/
theorem residual_of_root {cs : Coefficients} {r : Gaussian} (exact : cs.AllGaussian)
    (vanishes : cs.polynomial.eval r = 0) : residual cs (ofGaussian r) = .ok 0.0 := by
  rw [residual, Coefficients.evaluate_of_gaussian? exact (gaussian?_ofGaussian r), vanishes]
  rfl

/-! ## Close to an exact root -/

section Near

variable {s : Settings} {root : Value} {u r : Gaussian}
  (fine : 2 * s.maxDenominator ^ 2 < 10 ^ s.snapDigits)
  (reSmall : r.re.den ≤ s.maxDenominator) (imSmall : r.im.den ≤ s.maxDenominator)
  (located : root.located? = some u)
  (reNear : |u.re - r.re| ≤ 1 / 10 ^ s.snapDigits)
  (imNear : |u.im - r.im| ≤ 1 / 10 ^ s.snapDigits)

include fine reSmall imSmall located reNear imNear

/-- Both ways to convert a root that is near to a Gaussian rational lead to it. -/
theorem candidates_of_near : candidates s true root = .ok [ofGaussian r, ofGaussian r] := by
  have isExact : (ofGaussian r).isExact = true := isExact_ofGaussian r
  simp only [candidates, if_true, recover_of_near fine reSmall imSmall located reNear imNear,
    nearestRational_of_near fine reSmall imSmall located reNear imNear, ok_bind, pure_eq_ok,
    List.filter_cons, isExact, List.filter_nil]

/-- A found root within a unit of the last decimal place of an exact root of an exact polynomial
is replaced by that one, if the place is fine enough to tell fractions of the allowed
denominators apart. -/
theorem snapRoot_of_near {cs : Coefficients} {size : Float} (exact : cs.AllGaussian)
    (vanishes : cs.polynomial.eval r = 0) (measured : residual cs root = .ok size)
    (number : size.isNaN = false) : snapRoot s cs true root = .ok (ofGaussian r) := by
  have residualZero : residual cs (ofGaussian r) = .ok 0.0 := residual_of_root exact vanishes
  have noWorse : 0.0 ≤ size := zero_le_residual measured number
  -- the first candidate takes the place of the root, and the second one is no better
  have chosen : choose cs ⟨root, size, false⟩ [ofGaussian r, ofGaussian r] =
      .ok ⟨ofGaussian r, 0.0, true⟩ := by
    rw [choose, residualZero, ok_bind, offer_of_le noWorse]
    have notLess : ¬ (0.0 : Float) < 0.0 := by decide
    refine choose_of_least rfl fun v member => ⟨0.0, ?_, notLess⟩
    rw [List.mem_singleton.mp member, residualZero]
  rw [snapRoot, measured, ok_bind,
    candidates_of_near fine reSmall imSmall located reNear imNear, ok_bind, chosen]
  rfl

end Near

/-- A complex root of `9 * x ^ 2 - 6 * x + 2` is recovered from thirteen decimals of its parts. -/
theorem snapRoot_of_near_third :
    let cs : Coefficients := [.int 9, .int (-6), .int 2]
    let root : Value := .complex 0.3333333333333 0.3333333333333
    let third : Gaussian := ⟨1 / 3, 1 / 3⟩
    cs.AllGaussian ∧ cs.polynomial.eval third = 0 ∧
      snapRoot {} cs true root = .ok (ofGaussian third) := by
  intro cs root third
  have exact : cs.AllGaussian := by simp [Coefficients.AllGaussian, cs, IsGaussian, gaussian?]
  have vanishes : cs.polynomial.eval third = 0 := by
    simp [Coefficients.polynomial, Coefficients.numbers, cs, number, gaussian?,
      Gaussian.polynomial_cons, Gaussian.ext_iff, pow_two, third]
    norm_num
  let place : Gaussian := (root.located?).getD 0
  have located : root.located? = some place := by decide
  have near : |place.re - third.re| ≤ 1 / 10 ^ ({} : Settings).snapDigits ∧
      |place.im - third.im| ≤ 1 / 10 ^ ({} : Settings).snapDigits := by
    decide +kernel
  have evaluated : (residual cs root).map Float.isNaN = .ok false := by decide +kernel
  rcases map_eq_ok_iff.mp evaluated with ⟨size, measured, number⟩
  exact ⟨exact, vanishes, snapRoot_of_near (by decide) (by decide +kernel) (by decide +kernel)
    located near.1 near.2 exact vanishes measured number⟩

end ExactRoots.Deflation
