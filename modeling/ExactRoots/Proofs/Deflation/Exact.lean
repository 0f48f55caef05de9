import ExactRoots.Proofs.Coefficients.Division
import ExactRoots.Proofs.Coefficients.Quadratic
import ExactRoots.Proofs.Deflation.Chain
import Mathlib

/-!
# Exact deflation

However an exact root was found, dividing it out is exact: the polynomial is the
linear factor times the quotient plus the remainder.  Along a chain of steps
these identities make up one for the first polynomial, and without remainders
they split it into linear factors.
-/

namespace ExactRoots

open Polynomial Outcome

/-- The product of the linear factors that belong to roots. -/
noncomputable def linearFactors (roots : List Value) : Gaussian[X] :=
  (roots.map fun root => X - C root.number).prod

@[simp]
theorem linearFactors_nil : linearFactors [] = 1 := rfl

@[simp]
theorem linearFactors_cons (root : Value) (roots : List Value) :
    linearFactors (root :: roots) = (X - C root.number) * linearFactors roots := by
  simp [linearFactors]

@[simp]
theorem linearFactors_append (first second : List Value) :
    linearFactors (first ++ second) = linearFactors first * linearFactors second := by
  simp [linearFactors]

/-- The order of the roots does not matter. -/
theorem linearFactors_perm {first second : List Value} (same : first.Perm second) :
    linearFactors first = linearFactors second :=
  (same.map _).prod_eq

/-- A multiple of a product of linear factors has just their roots. -/
theorem roots_C_mul_linearFactors {lead : Gaussian} (nonzero : lead ≠ 0) (roots : List Value) :
    (C lead * linearFactors roots).roots = Multiset.ofList (roots.map Value.number) := by
  rw [roots_C_mul _ nonzero, linearFactors, ← Multiset.prod_coe]
  have factors : (↑(roots.map fun root => X - C root.number) : Multiset Gaussian[X]) =
      (Multiset.ofList (roots.map Value.number)).map fun u => X - C u := by
    simp [Function.comp_def]
  rw [factors, roots_multiset_prod_X_sub_C]

/-- Exact coefficients of which the first is not zero. -/
structure Coefficients.IsProper (cs : Coefficients) : Prop where
  exact : cs.AllGaussian
  length : cs.length = cs.polynomial.natDegree + 1

namespace Deflation

/-! ## One step -/

section Step

variable {current : Coefficients} {step : Step}

/-- What a step does to a proper polynomial. -/
structure Step.DividesOut (step : Step) (current : Coefficients) : Prop where
  quotient : step.quotient.IsProper
  remainder : step.remainder.AllGaussian
  identity : current.polynomial =
    (X - C step.root.number) * step.quotient.polynomial + step.remainder.polynomial
  leadingCoeff : step.quotient.polynomial.leadingCoeff = current.polynomial.leadingCoeff

/-- A remainder that is constant changes neither the degree nor the leading
coefficient of a proper product with a linear factor. -/
theorem leading_of_linear_identity {p q d : Gaussian[X]} {u : Gaussian}
    (identity : p = (X - C u) * q + d) (constant : d.degree < 1) (positive : 1 ≤ p.natDegree) :
    p.natDegree = q.natDegree + 1 ∧ q.leadingCoeff = p.leadingCoeff := by
  have nonzero : q ≠ 0 := by
    rintro rfl
    rw [mul_zero, zero_add] at identity
    subst identity
    have flat : p.natDegree = 0 :=
      natDegree_eq_zero_iff_degree_le_zero.mpr (Nat.WithBot.lt_one_iff_le_zero.mp constant)
    omega
  have monic : (X - C u).Monic := monic_X_sub_C u
  have degree : ((X - C u) * q).natDegree = q.natDegree + 1 := by
    rw [monic.natDegree_mul' nonzero, natDegree_X_sub_C, Nat.add_comm]
  have smaller : d.degree < ((X - C u) * q).degree := by
    rw [degree_eq_natDegree (mul_ne_zero monic.ne_zero nonzero), degree]
    exact lt_of_lt_of_le constant (by exact_mod_cast Nat.le_add_left 1 _)
  rw [identity]
  constructor
  · rw [natDegree_add_eq_left_of_degree_lt smaller, degree]
  · rw [leadingCoeff_add_of_degree_lt' smaller, leadingCoeff_mul, monic.leadingCoeff, one_mul]

/-- Dividing out an exact root of a proper polynomial is exact. -/
theorem Step.Divides.dividesOut (divides : step.Divides current) (proper : current.IsProper)
    (long : 3 < current.length) (rational : step.root.IsGaussian) :
    step.DividesOut current := by
  rcases divides.divides with ⟨negated, negation, divided⟩
  rcases Value.neg_computes rational.gaussian?_eq with ⟨value, negates, denoted⟩
  obtain rfl : value = negated := Except.ok.inj (negates.symm.trans negation)
  rw [Value.simplest_of_gaussian? denoted] at divided
  have divisorExact : Coefficients.AllGaussian [.int 1, .ofGaussian (-step.root.number)] :=
    Coefficients.allGaussian_ofGaussians [1, -step.root.number]
  have divisor : Coefficients.polynomial [.int 1, .ofGaussian (-step.root.number)] =
      X - C step.root.number := by
    refine (Coefficients.polynomial_ofGaussians [1, -step.root.number]).trans ?_
    simp [Gaussian.polynomial_cons, sub_eq_add_neg]
  have nonzero : ∃ d ∈ ([.int 1, .ofGaussian (-step.root.number)] : Coefficients),
      d.number ≠ 0 :=
    ⟨.int 1, List.mem_cons_self, one_ne_zero⟩
  rcases (Coefficients.divide_exact proper.exact divisorExact).2 nonzero with
    ⟨division, computed, euclidean⟩
  obtain rfl := Except.ok.inj (divided.symm.trans computed)
  have identity : current.polynomial =
      (X - C step.root.number) * step.quotient.polynomial + step.remainder.polynomial := by
    rw [← divisor]
    exact euclidean.identity
  have constant : step.remainder.polynomial.degree < 1 := by
    rw [← degree_X_sub_C step.root.number, ← divisor]
    exact euclidean.degree_lt
  have quotientLength : step.quotient.length = current.length - 1 := by
    have lengths := euclidean.lengths
    rw [divisor, natDegree_X_sub_C] at lengths
    exact (lengths le_rfl (by omega)).1
  have currentLength := proper.length
  rcases leading_of_linear_identity identity constant (by omega) with ⟨quotientDegree, leading⟩
  exact
    { quotient :=
        { exact := fun c member => (euclidean.quotient_canonical c member).1
          length := by omega }
      remainder := fun c member => (euclidean.remainder_canonical c member).1
      identity := identity
      leadingCoeff := leading }

end Step

/-! ## Chains of steps -/

/-- What the last step leaves, and what was there at first if there is no step. -/
def leftover (cs : Coefficients) (steps : List Step) : Coefficients :=
  (steps.getLast?.map Step.quotient).getD cs

theorem leftover_cons (cs : Coefficients) (step : Step) (steps : List Step) :
    leftover cs (step :: steps) = leftover step.quotient steps := by
  cases steps with
  | nil => rfl
  | cons next rest => simp [leftover, List.getLast?_cons]

/-- The first polynomial only matters if there is no step. -/
theorem polynomial_leftover {first second : Coefficients}
    (same : first.polynomial = second.polynomial) (steps : List Step) :
    (leftover first steps).polynomial = (leftover second steps).polynomial := by
  cases steps with
  | nil => exact same
  | cons step steps => rw [leftover_cons, leftover_cons]

/-- A polynomial in terms of the roots and remainders of steps and of what they
leave: every remainder stands behind the linear factors of the steps before
it. -/
noncomputable def expansion (steps : List Step) (last : Gaussian[X]) : Gaussian[X] :=
  ∑ k : Fin steps.length,
      steps[k].remainder.polynomial * linearFactors ((steps.take k).map (·.root)) +
    linearFactors (steps.map (·.root)) * last

@[simp]
theorem expansion_nil (last : Gaussian[X]) : expansion [] last = last := by
  simp [expansion]

/-- The first step stands outside the expansion of the others. -/
theorem expansion_cons (step : Step) (steps : List Step) (last : Gaussian[X]) :
    expansion (step :: steps) last =
      (X - C step.root.number) * expansion steps last + step.remainder.polynomial := by
  have later : ∑ k : Fin steps.length, steps[k].remainder.polynomial *
        linearFactors (((step :: steps).take (k + 1)).map (·.root)) =
      (X - C step.root.number) * ∑ k : Fin steps.length, steps[k].remainder.polynomial *
        linearFactors ((steps.take k).map (·.root)) := by
    rw [Finset.mul_sum]
    apply Finset.sum_congr rfl
    intro k _
    rw [List.take_succ_cons, List.map_cons, linearFactors_cons, mul_left_comm]
  have first : ∑ k : Fin (step :: steps).length, (step :: steps)[k].remainder.polynomial *
        linearFactors (((step :: steps).take k).map (·.root)) =
      step.remainder.polynomial + ∑ k : Fin steps.length, steps[k].remainder.polynomial *
        linearFactors (((step :: steps).take (k + 1)).map (·.root)) := by
    refine (Fin.sum_univ_succ _).trans ?_
    simp
  rw [expansion, first, later, List.map_cons, linearFactors_cons, expansion]
  ring

/-- Without remainders the expansion is a product. -/
theorem expansion_of_no_remainder {steps : List Step} (last : Gaussian[X])
    (clean : ∀ step ∈ steps, step.remainder = [.int 0]) :
    expansion steps last = linearFactors (steps.map (·.root)) * last := by
  have zero : Coefficients.polynomial [.int 0] = 0 := by
    simp [Coefficients.polynomial, Coefficients.numbers, Gaussian.polynomial_cons]
    rfl
  induction steps with
  | nil => simp
  | cons step steps ih =>
    rw [List.forall_mem_cons] at clean
    rw [expansion_cons, ih clean.2, clean.1, zero, List.map_cons, linearFactors_cons]
    ring

/-- A chain of exact roots leads from a proper polynomial to a proper one, and
the expansion over its steps is the first polynomial. -/
theorem Chain.expansion {first last : Coefficients} {steps : List Step}
    (chain : Chain first steps last) (proper : first.IsProper)
    (rational : ∀ step ∈ steps, step.root.IsGaussian) :
    last.IsProper ∧ last = leftover first steps ∧
      (∀ step ∈ steps, step.quotient.AllGaussian ∧ step.remainder.AllGaussian) ∧
      first.polynomial = Deflation.expansion steps last.polynomial ∧
      last.polynomial.leadingCoeff = first.polynomial.leadingCoeff := by
  induction chain with
  | done current => exact ⟨proper, rfl, by simp, by simp, rfl⟩
  | @next current last step steps long divides rest ih =>
    rw [List.forall_mem_cons] at rational
    have out := divides.dividesOut proper long rational.1
    rcases ih out.quotient rational.2 with ⟨lastProper, left, exact, expanded, leading⟩
    refine ⟨lastProper, ?_, ?_, ?_, leading.trans out.leadingCoeff⟩
    · rw [left, leftover_cons]
    · rw [List.forall_mem_cons]
      exact ⟨⟨out.quotient.exact, out.remainder⟩, exact⟩
    · rw [expansion_cons, ← expanded]
      exact out.identity

/-! ## The closing formula -/

/-- Whether a polynomial of degree two or less is linear or has a discriminant
that is a square of a Gaussian rational. -/
def SquareDiscriminant (p : Gaussian[X]) : Prop :=
  p.natDegree = 1 ∨ IsSquare (discrim (p.coeff 2) (p.coeff 1) (p.coeff 0))

section Closing

variable {a b c : Value} {closed : List Value}

/-- A quadratic with a square discriminant is split by the quadratic formula. -/
theorem closing_quadratic (proper : Coefficients.IsProper [a, b, c])
    (closes : closing [a, b, c] = .ok closed)
    (square : SquareDiscriminant (Coefficients.polynomial [a, b, c])) :
    Coefficients.AllGaussian closed ∧ Coefficients.polynomial [a, b, c] =
      C (Coefficients.polynomial [a, b, c]).leadingCoeff * linearFactors closed := by
  have exact := proper.exact
  have degree := proper.length
  simp only [Coefficients.AllGaussian, List.forall_mem_cons] at exact
  rcases exact with ⟨first, second, third, -⟩
  have expanded : Coefficients.polynomial [a, b, c] =
      Gaussian.polynomial [a.number, b.number, c.number] := rfl
  rw [expanded] at degree square ⊢
  rcases Gaussian.leading_of_natDegree_eq (List.cons_ne_nil _ _) (Nat.succ.inj degree.symm) with
    ⟨nonzero, leading⟩
  obtain ⟨w, squared⟩ : IsSquare (discrim a.number b.number c.number) := by
    rcases square with linear | square
    · simp [linear] at degree
    · simpa [Gaussian.polynomial_cons, coeff_X, coeff_C] using square
  have discriminant : b.number * b.number - 4 * a.number * c.number = w * w := by
    rw [← squared, discrim, pow_two]
  have formula := solveQuadratic_of_isSquare first.gaussian?_eq second.gaussian?_eq
    third.gaussian?_eq nonzero discriminant
  obtain rfl := Except.ok.inj (formula.symm.trans closes)
  constructor
  · exact Coefficients.allGaussian_ofGaussians _
  · rw [leading, quadratic_eq_mul nonzero
      (discriminant.trans (Gaussian.principal_mul_self w).symm)]
    simp

/-- A linear polynomial is split by its root. -/
theorem closing_linear (proper : Coefficients.IsProper [a, b])
    (closes : closing [a, b] = .ok closed) :
    Coefficients.AllGaussian closed ∧ Coefficients.polynomial [a, b] =
      C (Coefficients.polynomial [a, b]).leadingCoeff * linearFactors closed := by
  have exact := proper.exact
  have degree := proper.length
  simp only [Coefficients.AllGaussian, List.forall_mem_cons] at exact
  rcases exact with ⟨first, second, -⟩
  have expanded : Coefficients.polynomial [a, b] =
      Gaussian.polynomial [a.number, b.number] := rfl
  rw [expanded] at degree ⊢
  rcases Gaussian.leading_of_natDegree_eq (List.cons_ne_nil _ _) (Nat.succ.inj degree.symm) with
    ⟨nonzero, leading⟩
  obtain ⟨negated, negation, divided⟩ :=
    bind_eq_ok_iff.mp (quo_neg_of_gaussian? first.gaussian?_eq second.gaussian?_eq nonzero)
  obtain rfl : [Value.ofGaussian (-b.number / a.number)] = closed := by
    simpa [closing, negation, divided] using closes
  constructor
  · exact Coefficients.allGaussian_ofGaussians [-b.number / a.number]
  · rw [leading, linear_eq_mul nonzero]
    simp

end Closing

/-- A proper polynomial that a closed formula solves is split into linear factors if
its discriminant is a square. -/
theorem closing_splits {last : Coefficients} {closed : List Value} (proper : last.IsProper)
    (closes : closing last = .ok closed) (square : SquareDiscriminant last.polynomial) :
    Coefficients.AllGaussian closed ∧
      last.polynomial = C last.polynomial.leadingCoeff * linearFactors closed := by
  unfold closing at closes
  split at closes
  next => exact closing_quadratic proper closes square
  next => exact closing_linear proper closes
  next => contradiction

/-! ## Whole runs -/

/-- Exact coefficients are prepared by dropping the zeros in front. -/
theorem prepare_exact {cs first : Coefficients} (exact : cs.AllGaussian)
    (prepared : prepare cs = .ok first) :
    first.IsProper ∧ first.polynomial = cs.polynomial ∧ cs.polynomial ≠ 0 := by
  have decimals (us : List Gaussian) : (Coefficients.ofGaussians us).any Value.isDecimal = false :=
    Value.any_isDecimal_eq_false_iff.mpr (Coefficients.plain_ofGaussians us)
  rw [prepare, Coefficients.simplest_eq_ofGaussians exact,
    Coefficients.stripZeros_ofGaussians] at prepared
  cases stripped : Gaussian.strip cs.numbers with
  | nil => simp [stripped] at prepared
  | cons lead lower =>
    simp only [stripped, ok_bind, decimals, Bool.false_eq_true, if_false] at prepared
    split at prepared
    next => simp at prepared
    next =>
      obtain rfl := Except.ok.inj prepared
      have same := Coefficients.polynomial_of_strip stripped
      refine ⟨⟨Coefficients.allGaussian_ofGaussians _, ?_⟩, ?_, ?_⟩
      · rw [Coefficients.polynomial_ofGaussians, ← same,
          Coefficients.natDegree_of_strip stripped]
        simp
      · rw [Coefficients.polynomial_ofGaussians, same]
      · rw [same]
        exact Gaussian.polynomial_cons_ne_zero (Gaussian.ne_zero_of_strip_eq_cons stripped) lower

/-- However the roots of the steps were found, if they are exact, then the
polynomial is the expansion over the steps, and what they leave has its leading
coefficient.  If moreover no step leaves a remainder and the discriminant of what
is left is a square, then the returned roots are exact and are the roots of the
polynomial, each as often as its multiplicity. -/
theorem roots_of_exact_steps {s : Settings} {cs : Coefficients} {found : List Value}
    (exact : cs.AllGaussian) (returned : (run s cs).roots = .ok found)
    (rational : ∀ step ∈ (run s cs).steps, step.root.IsGaussian) :
    let steps := (run s cs).steps
    let last := leftover cs steps
    (∀ step ∈ steps, step.quotient.AllGaussian ∧ step.remainder.AllGaussian) ∧
      cs.polynomial = ∑ k : Fin steps.length,
          steps[k].remainder.polynomial * linearFactors ((steps.take k).map (·.root)) +
        linearFactors (steps.map (·.root)) * last.polynomial ∧
      last.polynomial.leadingCoeff = cs.polynomial.leadingCoeff ∧
      ((∀ step ∈ steps, step.remainder = [.int 0]) → SquareDiscriminant last.polynomial →
        (∀ root ∈ found, root.IsGaussian) ∧
          cs.polynomial = C cs.polynomial.leadingCoeff * linearFactors found ∧
          cs.polynomial.roots = Multiset.ofList (found.map Value.number)) := by
  intro steps last
  rcases chain_of_run returned with ⟨first, rest, closed, prepared, chain, -, closes, perm⟩
  rcases prepare_exact exact prepared with ⟨proper, same, nonzero⟩
  rcases chain.expansion proper rational with ⟨restProper, left, parts, expanded, leading⟩
  have remaining : rest.polynomial = last.polynomial := by
    rw [left]
    exact polynomial_leftover same steps
  rw [remaining, same] at expanded leading
  refine ⟨parts, expanded, leading, ?_⟩
  intro clean square
  rw [← remaining] at square
  rcases closing_splits restProper closes square with ⟨closedExact, split⟩
  rw [remaining, leading] at split
  have factored : cs.polynomial = C cs.polynomial.leadingCoeff * linearFactors found := by
    rw [linearFactors_perm perm, linearFactors_append]
    calc cs.polynomial
        = linearFactors (steps.map (·.root)) * last.polynomial := by
          rw [expanded, expansion_of_no_remainder _ clean]
      _ = C cs.polynomial.leadingCoeff *
            (linearFactors (steps.map (·.root)) * linearFactors closed) := by
          rw [split]
          ring
  refine ⟨?_, factored, ?_⟩
  · intro root member
    rcases List.mem_append.mp (perm.mem_iff.mp member) with stepped | closedRoot
    · rcases List.mem_map.mp stepped with ⟨step, stepMember, rfl⟩
      exact rational step stepMember
    · exact closedExact root closedRoot
  · rw [factored]
    exact roots_C_mul_linearFactors (leadingCoeff_ne_zero.mpr nonzero) found

/-- The start of the search is a root of this cubic, which is divided out as an
exact root. -/
theorem roots_of_exact_steps_cubic :
    let cs : Coefficients := [.int 5, .exact (-3) (-4) (by decide), .int 0, .int 0]
    ∃ found, cs.AllGaussian ∧ (run {} cs).roots = .ok found ∧
      (run {} cs).steps.length = 1 ∧ (∀ step ∈ (run {} cs).steps, step.root.IsGaussian) ∧
        cs.polynomial = C cs.polynomial.leadingCoeff * linearFactors found := by
  intro cs
  have exact : cs.AllGaussian := by
    simp [cs, Coefficients.AllGaussian, Value.IsGaussian, Value.gaussian?]
  have steps : (run {} cs).steps = [⟨.exact (3 / 5) (4 / 5) (by decide +kernel),
      [.int 5, .int 0, .int 0], [.int 0]⟩] := by decide +kernel
  have rational : ∀ step ∈ (run {} cs).steps, step.root.IsGaussian := by
    simp [steps, Value.IsGaussian, Value.gaussian?]
  have returns : (run {} cs).roots.isOk = true := by decide +kernel
  cases returned : (run {} cs).roots with
  | error fault =>
    rw [returned] at returns
    contradiction
  | ok found =>
    have square : SquareDiscriminant (leftover cs (run {} cs).steps).polynomial := by
      right
      simp [steps, leftover, Coefficients.polynomial, Coefficients.numbers, Value.number,
        Value.gaussian?, Gaussian.polynomial_cons, discrim]
    have clean : ∀ step ∈ (run {} cs).steps, step.remainder = [.int 0] := by
      simp [steps]
    rcases roots_of_exact_steps exact returned rational with ⟨-, -, -, split⟩
    exact ⟨found, exact, rfl, by simp [steps], rational, (split clean square).2.1⟩

end Deflation

end ExactRoots
