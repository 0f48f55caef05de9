import ExactRoots.Proofs.Deflation.Count
import ExactRoots.Report.Solution

/-!
# The steps of a solution

A solution recounts the run that it reports: one step for the polynomial, one for
each deflation in the order in which they were made, and one for the closing
formula.  The step for a deflation shows the root, the quotient and the remainder,
and the formula that is named is the one that solves what the deflations have left.
How the coefficients were parsed does not matter for that.
-/

namespace ExactRoots

open Outcome Value

/-! ## Coefficients that were read -/

section Read

variable {parse : Expression.Parser}

theorem plain_value (part : Expression.Part) :
    Yields (fun v => v.Plain ∧ v.Settled) part.value := by
  unfold Expression.Part.value
  split
  next q _ => exact yields_ok.mpr (ofRat_plain q)
  next =>
    intro v found
    rcases map_eq_ok_iff.mp found with ⟨x, -, rfl⟩
    exact ⟨rfl, nofun⟩

theorem plain_valueOfParts (re im : Expression.Part) :
    Yields (fun v => v.Plain ∧ v.Settled) (Expression.valueOfParts re im) := by
  unfold Expression.valueOfParts
  split
  next => exact plain_value re
  next =>
    split
    next p q _ _ => exact yields_ok.mpr (ofGaussian_plain ⟨p, q⟩)
    next =>
      refine yields_bind_iff.mpr fun x _ => yields_bind_iff.mpr fun y _ => ?_
      exact yields_ok.mpr ⟨rfl, nofun⟩

/-- A coefficient that was read is no decimal, and is worked out. -/
theorem plain_readCoefficient (text : String) :
    Yields (fun v => v.Plain ∧ v.Settled) (readCoefficient parse text) := by
  unfold readCoefficient
  dsimp only
  split
  next => exact yields_error _
  next =>
    split
    next => exact yields_error _
    next => exact yields_error _
    next parts _ => exact yields_bind_iff.mpr fun pair _ => plain_valueOfParts pair.1 pair.2

theorem plain_readCoefficients (texts : List String) :
    Yields (fun vs => ∀ v ∈ vs, v.Plain ∧ v.Settled) (readCoefficients parse texts) := by
  unfold readCoefficients
  split
  next => exact yields_error _
  next => exact .mapM fun text _ => plain_readCoefficient text

end Read

namespace Deflation

/-- Coefficients that are led by a nonzero one which is worked out, and without
decimals, lose no lead when a run prepares them. -/
theorem strip_simplest {cs : Coefficients} (plain : ∀ c ∈ cs, c.Plain ∧ c.Settled)
    (leads : ∀ lead ∈ cs.head?, lead.isZero = .ok false) :
    cs.simplest.stripZeros = .ok cs.simplest ∧ losesLead cs.simplest = false := by
  cases cs with
  | nil => exact ⟨rfl, rfl⟩
  | cons lead lower =>
    have nonzero : lead.simplest.isZero = .ok false := by
      rw [simplest, isZero_simplify true (plain lead List.mem_cons_self).2]
      exact leads lead rfl
    have none : (Coefficients.simplest (lead :: lower)).any isDecimal = false :=
      any_isDecimal_eq_false_iff.mpr
        (Coefficients.plain_simplest fun c member => (plain c member).1)
    constructor
    · rw [Coefficients.simplest, List.map_cons, Coefficients.stripZeros, nonzero]
      rfl
    · rw [Coefficients.simplest, List.map_cons] at none ⊢
      rw [losesLead, none, Bool.false_and]

/-- A run that returns prepares at least two coefficients. -/
theorem two_le_of_run {s : Settings} {cs stripped : Coefficients} {found : List Value}
    (strips : cs.simplest.stripZeros = .ok stripped) (returned : (run s cs).roots = .ok found) :
    2 ≤ stripped.length := by
  rcases chain_of_run returned with ⟨first, -, -, prepared, -⟩
  exact (prepare_leads strips prepared).2.1

/-- A run that returns has a root for each degree, and makes a deflation for each degree
above two. -/
theorem degree_of_run {s : Settings} {cs : Coefficients} {found : List Value}
    (plain : ∀ c ∈ cs, c.Plain ∧ c.Settled) (leads : ∀ lead ∈ cs.head?, lead.isZero = .ok false)
    (returned : (run s cs).roots = .ok found) :
    ∃ n, cs.length = n + 1 ∧ 1 ≤ n ∧ (run s cs).steps.length = n - 2 ∧ found.length = n := by
  rcases strip_simplest plain leads with ⟨strips, kept⟩
  have length : cs.simplest.length = cs.length := List.length_map ..
  have long := two_le_of_run strips returned
  rw [length] at long
  obtain ⟨n, degree⟩ : ∃ n, cs.length = n + 1 := ⟨cs.length - 1, by omega⟩
  rcases count_of_run strips (length.trans degree) returned with ⟨deflations, -, total⟩
  rw [kept, if_neg Bool.false_ne_true, Nat.add_zero] at total
  exact ⟨n, degree, by omega, deflations, total⟩

end Deflation

namespace Report

open Deflation (run)
open Expression (Parser)

/-! ## Deflations -/

/-- The steps of deflations are numbered in turn. -/
theorem numbers_of_deflationSteps {number : Nat} {deflations : List Deflation.Step}
    {steps : List Step} (written : deflationSteps number deflations = .ok steps) :
    steps.map (·.number) = List.range' number deflations.length := by
  induction deflations generalizing number steps with
  | nil =>
    cases written
    rfl
  | cons deflation deflations ih =>
    rcases bind_eq_ok_iff.mp written with ⟨first, told, written⟩
    rcases bind_eq_ok_iff.mp written with ⟨others, rest, written⟩
    cases written
    simp only [deflationStep, bind_eq_ok_iff, pure_eq_ok, Except.ok.injEq] at told
    rcases told with ⟨_, -, _, -, _, -, rfl⟩
    rw [List.map_cons, ih rest, List.length_cons, List.range'_succ]

theorem length_of_deflationSteps {number : Nat} {deflations : List Deflation.Step}
    {steps : List Step} (written : deflationSteps number deflations = .ok steps) :
    steps.length = deflations.length := by
  simpa using congrArg List.length (numbers_of_deflationSteps written)

/-- With a step in front and one behind, the steps are numbered from one on. -/
theorem numbers_of_steps {deflations : List Deflation.Step} {middle : List Step}
    (written : deflationSteps 2 deflations = .ok middle) {opening closing : Step}
    (first : opening.number = 1) (last : closing.number = middle.length + 2) :
    (opening :: middle ++ [closing]).map (·.number) = List.range' 1 (middle.length + 2) := by
  have listed : List.range' 1 (middle.length + 2) =
      1 :: (List.range' 2 middle.length ++ [middle.length + 2]) := by
    rw [List.range'_succ, List.range'_1_concat, Nat.add_comm 2]
  rw [listed, List.map_append, List.map_cons, numbers_of_deflationSteps written,
    ← length_of_deflationSteps written, List.map_singleton, first, last]
  rfl

/-- Whether a step shows a deflation: the root that is divided out, and the quotient and the
remainder that this leaves. -/
def Shows (step : Step) (made : Deflation.Step) : Prop :=
  ∃ root quotient remainder, writeNumber made.root = .ok root ∧
    writePolynomial made.quotient = .ok quotient ∧
    made.remainder.mapM writeNumber = .ok remainder ∧
    step.description = "Find a root and divide out (x - " ++ root ++ ")" ∧
    step.expression = "x = " ++ root ++ "   →   " ++ quotient ∧
    step.explanation = "An iterative search found the root x = " ++ root ++
      ". Synthetic division by (x - " ++ root ++ ") leaves the quotient " ++ quotient ++
      " with remainder " ++ ", ".intercalate remainder ++ ", lowering the degree by one."

theorem shows_of_deflationStep {number : Nat} {made : Deflation.Step} {step : Step}
    (told : deflationStep number made = .ok step) : Shows step made := by
  simp only [deflationStep, bind_eq_ok_iff, pure_eq_ok, Except.ok.injEq] at told
  rcases told with ⟨root, divided, quotient, left, remainder, rest, rfl⟩
  exact ⟨root, quotient, remainder, divided, left, rest, rfl, rfl, rfl⟩

/-- Each step of deflations shows its own deflation. -/
theorem getElem_of_deflationSteps {number : Nat} {deflations : List Deflation.Step}
    {steps : List Step} (written : deflationSteps number deflations = .ok steps) (k : Nat)
    (bound : k < deflations.length) :
    ∃ step, steps[k]? = some step ∧ Shows step deflations[k] := by
  induction deflations generalizing number steps k with
  | nil => exact absurd bound (Nat.not_lt_zero k)
  | cons deflation deflations ih =>
    rcases bind_eq_ok_iff.mp written with ⟨first, told, written⟩
    rcases bind_eq_ok_iff.mp written with ⟨others, rest, written⟩
    cases written
    cases k with
    | zero => exact ⟨first, rfl, shows_of_deflationStep told⟩
    | succ k => exact ih rest k (Nat.lt_of_succ_lt_succ bound)

/-! ## Solutions -/

/-- Whether a solution recounts the run on a polynomial of degree `n`. -/
structure Recounts (solution : Solution) (cs : Coefficients) (answer : Deflation.Answer)
    (n : Nat) : Prop where
  nonconstant : 1 ≤ n
  polynomial : writePolynomial cs = .ok solution.polynomial
  degree : solution.degree = n
  found : ∃ found, answer.roots = .ok found ∧ found.mapM writeNumber = .ok solution.roots
  roots : solution.roots.length = n
  chain : ∃ first last, Deflation.prepare cs = .ok first ∧ Deflation.Chain first answer.steps last
  deflations : answer.steps.length = n - 2
  steps : solution.steps.length = (n - 2) + 2
  numbered : solution.steps.map (·.number) = List.range' 1 solution.steps.length
  opening : ∃ step, solution.steps.head? = some step ∧
    step.description = "Starting with the polynomial" ∧
    step.expression = solution.polynomial ++ " = 0" ∧
    step.explanation = "We are looking for every value of x that makes this degree-" ++
      toString n ++ " polynomial equal to zero."
  between : ∀ k (bound : k < answer.steps.length), ∃ step, solution.steps[k + 1]? = some step ∧
    Shows step answer.steps[k]
  closing : ∃ step, solution.steps.getLast? = some step ∧
    step.expression = ", ".intercalate (solution.roots.map ("x = " ++ ·)) ∧
    (2 ≤ n ↔ step.description = "Solve the rest with the quadratic formula" ∧
      step.explanation = "Once the polynomial is down to degree 2, the quadratic formula gives " ++
        "the remaining roots exactly where possible.") ∧
    (n = 1 ↔ step.description = "Solve the rest with the linear formula" ∧
      step.explanation = "Once the polynomial is down to degree 1, the linear formula gives " ++
        "the remaining roots exactly where possible.")

/-- The closing step names the quadratic formula from degree two on, and the linear one below. -/
theorem closingStep_spec {n number : Nat} (nonconstant : 1 ≤ n) (roots : List String) :
    let step := closingStep number (n - (n - 2)) roots
    (2 ≤ n ↔ step.description = "Solve the rest with the quadratic formula" ∧
      step.explanation = "Once the polynomial is down to degree 2, the quadratic formula gives " ++
        "the remaining roots exactly where possible.") ∧
    (n = 1 ↔ step.description = "Solve the rest with the linear formula" ∧
      step.explanation = "Once the polynomial is down to degree 1, the linear formula gives " ++
        "the remaining roots exactly where possible.") := by
  rcases Nat.lt_or_ge n 2 with below | quadratic
  · obtain rfl : n = 1 := by omega
    have texts : (closingStep 0 1 []).description = "Solve the rest with the linear formula" ∧
        (closingStep 0 1 []).explanation =
          "Once the polynomial is down to degree 1, the linear formula gives " ++
            "the remaining roots exactly where possible." := by decide +kernel
    have other :
        (closingStep 0 1 []).description ≠ "Solve the rest with the quadratic formula" := by
      decide +kernel
    exact ⟨iff_of_false (by decide) fun named => other named.1, iff_of_true rfl texts⟩
  · have left : n - (n - 2) = 2 := by omega
    rw [left]
    have texts : (closingStep 0 2 []).description = "Solve the rest with the quadratic formula" ∧
        (closingStep 0 2 []).explanation =
          "Once the polynomial is down to degree 2, the quadratic formula gives " ++
            "the remaining roots exactly where possible." := by decide +kernel
    have other : (closingStep 0 2 []).description ≠ "Solve the rest with the linear formula" := by
      decide +kernel
    exact ⟨iff_of_true quadratic texts, iff_of_false (by omega) fun named => other named.1⟩

/-- A solution that is given recounts the run on the coefficients that were read, by whatever
parser, without the zeros in front: the degree is theirs, there is one root for each degree and
one step for each deflation between the first step and the last. -/
theorem solve_recounts {parse : Parser} {settings : Except Fault Settings} {texts : List String}
    {solution : Solution} (solved : solve parse settings texts = .ok solution) :
    ∃ s vs cs n, settings = .ok s ∧ readCoefficients parse texts = .ok vs ∧
      Coefficients.stripZeros vs = .ok cs ∧ cs.length = n + 1 ∧
      (∃ zeros, vs = zeros ++ cs ∧ ∀ c ∈ zeros, c.isZero = .ok true) ∧
      (∀ lead ∈ cs.head?, lead.isZero = .ok false) ∧ Recounts solution cs (run s cs) n := by
  simp only [solve, bind_eq_ok_iff, pure_eq_ok, Except.ok.injEq] at solved
  rcases solved with ⟨vs, read, cs, strips, polynomial, named, s, configured, middle, written,
    found, returned, roots, shown, rfl⟩
  rcases Coefficients.stripZeros_spec strips with ⟨zeros, leads⟩
  have subset := Coefficients.mem_of_stripZeros strips
  have plain := plain_readCoefficients texts vs read
  rcases Deflation.degree_of_run (fun c member => plain c (subset c member)) leads returned with
    ⟨n, length, nonconstant, deflations, total⟩
  rcases Deflation.chain_of_run returned with ⟨first, last, -, prepared, chain, -⟩
  have told := length_of_deflationSteps written
  have count : middle.length = n - 2 := told.trans deflations
  have degree : cs.length - 1 = n := by omega
  refine ⟨s, vs, cs, n, configured, read, strips, length, zeros, leads, ?_⟩
  simp only [degree, count]
  exact
    { nonconstant
      polynomial := named
      degree := rfl
      found := ⟨found, returned, shown⟩
      roots := (mapM_eq_ok_iff.mp shown).length_eq.symm.trans total
      chain := ⟨first, last, prepared, chain⟩
      deflations
      steps := by simp [count]
      numbered := by
        simpa using numbers_of_steps written rfl (congrArg (· + 2) count.symm)
      opening := ⟨_, rfl, rfl, rfl, rfl⟩
      between := by
        intro k bound
        rcases getElem_of_deflationSteps written k bound with ⟨step, place, shows⟩
        refine ⟨step, ?_, shows⟩
        rw [List.cons_append, List.getElem?_cons_succ,
          List.getElem?_append_left (told ▸ bound)]
        exact place
      closing := ⟨_, List.getLast?_concat, rfl, closingStep_spec nonconstant roots⟩ }

/-- A cubic with a zero in front has three steps and three roots. -/
theorem solve_recounts_cubic :
    ∃ solution cs answer,
      solve Expression.parse (.ok {}) ["0", "5", "-3 - 4i", "0", "0"] = .ok solution ∧
        Recounts solution cs answer 3 ∧ answer.steps ≠ [] := by
  let cs : Coefficients := [.int 5, .exact (-3) (-4) (by decide), .int 0, .int 0]
  have reads : readCoefficients Expression.parse ["0", "5", "-3 - 4i", "0", "0"] =
      .ok (.int 0 :: cs) :=
    toOption_eq_some_iff.mp (by decide +kernel)
  have strips : Coefficients.stripZeros (.int 0 :: cs) = .ok cs := by rfl
  have prepared : Deflation.prepare cs = .ok cs := toOption_eq_some_iff.mp (by decide +kernel)
  obtain ⟨polynomial, named⟩ :=
    isOk_iff.mp (show (writePolynomial cs).isOk = true by decide +kernel)
  obtain ⟨middle, written⟩ :=
    isOk_iff.mp (show (deflationSteps 2 (run {} cs).steps).isOk = true by decide +kernel)
  obtain ⟨found, returned⟩ := isOk_iff.mp (show (run {} cs).roots.isOk = true by decide +kernel)
  -- The sort is not evaluated: in whatever order the roots are, each of them can be written.
  have writable : ∀ v ∈ found, (writeNumber v).isOk = true := by
    have divided : (run {} cs).steps.all (fun step => (writeNumber step.root).isOk) = true := by
      decide +kernel
    have closed : ((Deflation.deflate {} (cs.all isExact) cs).rest.bind
        Deflation.closing).toOption.any (·.all fun v => (writeNumber v).isOk) = true := by
      decide +kernel
    simp only [run, prepared, bind_eq_ok_iff] at divided returned
    rcases returned with ⟨last, ended, rest, closes, sorted⟩
    rw [ended, Except.bind, closes] at closed
    intro v member
    rcases List.mem_append.mp ((Deflation.perm_of_sortRoots sorted).mem_iff.mp member) with
      first | second
    · rcases List.mem_map.mp first with ⟨step, made, rfl⟩
      exact List.all_eq_true.mp divided step made
    · exact List.all_eq_true.mp closed v second
  obtain ⟨roots, shown⟩ :=
    exists_mapM_eq_ok_iff.mpr fun v member => isOk_iff.mp (writable v member)
  have solved : ∃ solution,
      solve Expression.parse (.ok {}) ["0", "5", "-3 - 4i", "0", "0"] = .ok solution := by
    simp [solve, reads, strips, named, written, returned, shown]
  rcases solved with ⟨solution, solved⟩
  rcases solve_recounts solved with
    ⟨s, vs, stripped, n, configured, read, stripping, length, -, -, recounts⟩
  cases configured
  cases reads.symm.trans read
  cases strips.symm.trans stripping
  cases length
  exact ⟨solution, _, _, solved, recounts, by decide +kernel⟩

end Report

end ExactRoots
