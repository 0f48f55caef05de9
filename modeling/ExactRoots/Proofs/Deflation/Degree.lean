import ExactRoots.Proofs.Coefficients.Division
import ExactRoots.Proofs.Deflation.Chain

/-!
# Degrees along a deflation

Dividing by a monic linear polynomial takes the leading coefficient over as it
is and drops one coefficient.  A chain of steps therefore keeps the degree in
account, and the number of roots depends only on whether the leading coefficient
of the prepared polynomial is zero.
-/

namespace ExactRoots

open Outcome Value

namespace Coefficients

/-- Coefficients without decimals that are led by one that is worked out, and
that is zero or not as told. -/
structure Leads (current : Coefficients) (zero : Bool) : Prop where
  plain : ∀ c ∈ current, c.Plain
  lead : ∃ lead, current.head? = some lead ∧ lead.Settled ∧ lead.isZero = .ok zero

theorem plain_simplest {current : Coefficients} (plain : ∀ c ∈ current, c.Plain) :
    ∀ c ∈ current.simplest, c.Plain := by
  intro c member
  rcases List.mem_map.mp member with ⟨v, original, rfl⟩
  exact (isDecimal_simplify true v).trans (plain v original)

/-- Subtracting a multiple changes the first column alone for a linear divisor. -/
theorem subtractMultiple_linear {q d c : Value} {cs left : Coefficients} (qPlain : q.Plain)
    (dPlain : d.Plain) (cPlain : c.Plain)
    (subtracted : subtractMultiple q [d] (c :: cs) = .ok left) :
    ∃ column, left = column :: cs ∧ column.Plain := by
  simp only [subtractMultiple, bind_eq_ok_iff] at subtracted
  rcases subtracted with ⟨negated, negation, product, multiplied, sum, added, rest, stopped, same⟩
  cases stopped
  cases same
  have productPlain := mul_plain qPlain (neg_plain dPlain _ negation) _ multiplied
  exact ⟨sum.simplest, rfl,
    (isDecimal_simplify true sum).trans (add_plain cPlain productPlain _ added)⟩

/-- A row that is divided by a monic linear polynomial keeps its first column. -/
theorem divideRow_linear {d : Value} {steps : Nat} {row : Coefficients} {division : Division}
    (dPlain : d.Plain) (rowPlain : ∀ c ∈ row, c.Plain) (length : row.length = steps + 1)
    (divided : divideRow (.int 1) [d] steps row = .ok division) :
    division.quotient.length = steps ∧ division.quotient.head? = (row.take steps).head? ∧
      ∀ c ∈ division.quotient, c.Plain := by
  induction steps generalizing row division with
  | zero =>
    cases row with
    | nil => contradiction
    | cons c cs =>
      cases divided
      simp
  | succ steps ih =>
    obtain ⟨c, e, cs, rfl⟩ : ∃ c e cs, row = c :: e :: cs := by
      match row, length with
      | c :: e :: cs, _ => exact ⟨c, e, cs, rfl⟩
    have one : (Value.int 1).equals (.int 1) = .ok true := rfl
    rw [divideRow, one] at divided
    simp only [ok_bind, if_true, pure_eq_ok, bind_eq_ok_iff] at divided
    rcases divided with ⟨left, subtracted, rest, dividedRest, closed⟩
    cases closed
    simp only [List.forall_mem_cons] at rowPlain
    rcases rowPlain with ⟨cPlain, ePlain, csPlain⟩
    rcases subtractMultiple_linear cPlain dPlain ePlain subtracted with ⟨column, rfl, columnPlain⟩
    have leftPlain : ∀ v ∈ column :: cs, v.Plain := List.forall_mem_cons.mpr ⟨columnPlain, csPlain⟩
    rcases ih leftPlain (Nat.succ.inj length) dividedRest with ⟨restLength, -, restPlain⟩
    exact ⟨congrArg Nat.succ restLength, rfl, List.forall_mem_cons.mpr ⟨cPlain, restPlain⟩⟩

/-- Division by a monic linear polynomial, without decimals, divides the row of
simplest forms. -/
theorem divide_linear {current : Coefficients} {d : Value} {division : Division}
    (plain : ∀ c ∈ current, c.Plain) (dPlain : d.Plain) (long : 2 ≤ current.length)
    (divided : current.divide [.int 1, d] = .ok division) :
    division.quotient.length + 1 = current.length ∧
      division.quotient.head? = current.simplest.head? ∧ ∀ c ∈ division.quotient, c.Plain := by
  have simplestPlain := plain_simplest plain
  have divisorPlain : d.simplest.Plain := (isDecimal_simplify true d).trans dPlain
  have length : current.simplest.length = current.length := List.length_map ..
  have stripped : stripZeros (Coefficients.simplest [.int 1, d]) = .ok [.int 1, d.simplest] := rfl
  have joined : ∀ c ∈ current.simplest ++ [.int 1, d.simplest], c.Plain := by
    intro c member
    rcases List.mem_append.mp member with front | back
    · exact simplestPlain c front
    · simp only [List.mem_cons, List.not_mem_nil, or_false] at back
      rcases back with rfl | rfl
      · rfl
      · exact divisorPlain
  rw [divide, stripped] at divided
  simp only [ok_bind, coerceDecimals_of_plain joined, List.drop_left, List.take_left] at divided
  have row : divideRow (.int 1) [d.simplest] (current.length - 1) current.simplest =
      .ok division := by
    have proper : ¬ current.length ≤ 1 := by omega
    simpa [divideBy, length, proper] using divided
  rcases divideRow_linear divisorPlain simplestPlain (by omega) row with
    ⟨quotientLength, head, quotientPlain⟩
  have nonempty : current.length - 1 ≠ 0 := by omega
  rw [List.head?_take, if_neg nonempty] at head
  exact ⟨by omega, head, quotientPlain⟩

end Coefficients

namespace Deflation

open Coefficients (Leads)

/-- A step drops one coefficient and keeps the leading one in simplest form. -/
theorem Step.Divides.leads {step : Step} {current : Coefficients} {zero : Bool}
    (divides : step.Divides current) (leads : Leads current zero) (long : 3 < current.length) :
    step.quotient.length + 1 = current.length ∧ Leads step.quotient zero := by
  rcases divides.divides with ⟨negated, negation, divided⟩
  have negatedPlain : negated.simplest.Plain :=
    (isDecimal_simplify true negated).trans (neg_plain divides.plain _ negation)
  rcases Coefficients.divide_linear leads.plain negatedPlain (by omega) divided with
    ⟨length, head, plain⟩
  rcases leads.lead with ⟨lead, first, settled, checked⟩
  refine ⟨length, plain, lead.simplest, ?_, settled_simplify true lead, ?_⟩
  · rw [head, Coefficients.simplest, List.head?_map, first]
    rfl
  · rw [simplest, isZero_simplify true settled, checked]

/-- The degrees of the quotients along a chain. -/
theorem Chain.leads {first last : Coefficients} {steps : List Step} {zero : Bool}
    (chain : Chain first steps last) (leads : Leads first zero) :
    Leads last zero ∧ first.length = last.length + steps.length ∧
      (steps ≠ [] → 3 ≤ last.length) ∧
      ∀ k (bound : k < steps.length),
        steps[k].quotient.length + k + 1 = first.length ∧ Leads steps[k].quotient zero := by
  induction chain with
  | done current => exact ⟨leads, rfl, by simp, by simp⟩
  | @next current last step steps long divides rest ih =>
    rcases divides.leads leads long with ⟨length, quotientLeads⟩
    rcases ih quotientLeads with ⟨lastLeads, lastLength, atLeast, each⟩
    refine ⟨lastLeads, by simp only [List.length_cons]; omega, ?_, ?_⟩
    · intro _
      cases rest with
      | done => omega
      | next => exact atLeast (List.cons_ne_nil _ _)
    · rintro (_ | k) bound
      · exact ⟨by simpa using length, quotientLeads⟩
      · rcases each k (Nat.lt_of_succ_lt_succ bound) with ⟨laterLength, laterLeads⟩
        refine ⟨?_, laterLeads⟩
        simp only [List.getElem_cons_succ]
        omega

/-! ## The closing formula -/

theorem quadraticFormula_length {a b root : Value} {found : Coefficients}
    (solved : quadraticFormula a b root = .ok found) : found.length = 2 := by
  simp only [quadraticFormula, bind_eq_ok_iff] at solved
  rcases solved with ⟨_, -, _, -, _, -, first, -, _, -, _, -, second, -, solved⟩
  cases solved
  rfl

/-- A quadratic has two roots; without its leading coefficient it has one. -/
theorem solveQuadratic_length {a b c : Value} {zero : Bool} {found : List Value}
    (leads : Leads [a, b, c] zero) (solved : solveQuadratic a b c = .ok found) :
    found.length + (if zero then 2 else 1) = 3 := by
  rcases leads.lead with ⟨lead, first, settled, checked⟩
  obtain rfl : a = lead := Option.some.inj first
  have uncoerced : coerceDecimals [a.simplest, b.simplest, c.simplest] =
      .ok [a.simplest, b.simplest, c.simplest] :=
    coerceDecimals_of_plain (Coefficients.plain_simplest leads.plain)
  have simplestChecked : a.simplest.isZero = .ok zero := by
    rw [simplest, isZero_simplify true settled, checked]
  simp only [solveQuadratic, uncoerced, ok_bind, simplestChecked] at solved
  cases zero with
  | true =>
    simp only [if_true, bind_eq_ok_iff] at solved
    rcases solved with ⟨flat, -, solved⟩
    split at solved
    next => simp [bind_eq_ok_iff] at solved
    next =>
      simp only [bind_eq_ok_iff] at solved
      rcases solved with ⟨_, -, root, -, solved⟩
      cases solved
      rfl
  | false =>
    simp only [Bool.false_eq_true, if_false, bind_eq_ok_iff] at solved
    rcases solved with ⟨_, -, root, -, solved⟩
    split at solved
    next =>
      rcases bind_eq_ok_iff.mp solved with ⟨coerced, -, solved⟩
      split at solved
      next => rw [quadraticFormula_length solved, if_neg Bool.false_ne_true]
      next => contradiction
    next => rw [quadraticFormula_length solved, if_neg Bool.false_ne_true]

/-- A linear equation has one root, and none without its leading coefficient. -/
theorem closing_linear_length {a b : Value} {zero : Bool} {found : List Value}
    (leads : Leads [a, b] zero) (closes : closing [a, b] = .ok found) :
    found.length + (if zero then 2 else 1) = 2 := by
  rcases leads.lead with ⟨lead, first, -, checked⟩
  obtain rfl : a = lead := Option.some.inj first
  simp only [closing, bind_eq_ok_iff] at closes
  rcases closes with ⟨negated, -, root, divided, closes⟩
  cases closes
  cases zero with
  | true =>
    simp [quo, checked, bind_eq_ok_iff] at divided
  | false => rfl

theorem closing_length {last : Coefficients} {closed : List Value} {zero : Bool}
    (leads : Leads last zero) (closes : closing last = .ok closed) :
    closed.length + (if zero then 2 else 1) = last.length := by
  match last, closes with
  | [a, b, c], closes => exact solveQuadratic_length leads closes
  | [a, b], closes => exact closing_linear_length leads closes

end Deflation

end ExactRoots
