import ExactRoots.Proofs.Coefficients.Support
import ExactRoots.Proofs.Deflation.Degree
import ExactRoots.Proofs.Deflation.Faults

/-!
# The number of roots

A run that returns has as many roots as the degree, except that a leading
coefficient may be too small for a double.  The zeros in front are stripped
before decimals are made inexact, so a leading coefficient that only then
becomes zero stays, and one root is missing.
-/

namespace ExactRoots.Deflation

open Outcome Value
open Coefficients (Leads mem_of_stripZeros stripZeros_spec)

/-- Whether the first of the stripped coefficients becomes zero when a decimal among
them makes all of them inexact. -/
def losesLead : Coefficients → Bool
  | [] => false
  | lead :: lower => (lead :: lower).any isDecimal &&
    match lead.toInexact with
    | .ok y => y.isZero
    | .error _ => false

/-- Coefficients made inexact are as many as before, and no decimals. -/
theorem inexact_plain {cs smooth : Coefficients}
    (smoothed : cs.mapM (fun c => c.toInexact.map inexact) = .ok smooth) :
    smooth.length = cs.length ∧ ∀ c ∈ smooth, c.Plain := by
  have related := mapM_eq_ok_iff.mp smoothed
  clear smoothed
  constructor
  · exact related.length_eq.symm
  · induction related with
    | nil => simp
    | cons converted _ ih =>
      rcases map_eq_ok_iff.mp converted with ⟨y, -, rfl⟩
      exact List.forall_mem_cons.mpr ⟨rfl, ih⟩

/-- The prepared polynomial has the stripped coefficients, and its leading one is
zero exactly if it is lost. -/
theorem prepare_leads {cs stripped first : Coefficients}
    (strips : cs.simplest.stripZeros = .ok stripped) (prepared : prepare cs = .ok first) :
    first.length = stripped.length ∧ 2 ≤ stripped.length ∧ Leads first (losesLead stripped) := by
  have subset := mem_of_stripZeros strips
  have nonzero := (stripZeros_spec strips).2
  rw [prepare, strips] at prepared
  simp only [ok_bind] at prepared
  split at prepared
  next => contradiction
  next long =>
    obtain ⟨lead, lower, rfl⟩ : ∃ lead lower, stripped = lead :: lower :=
      List.exists_cons_of_length_pos (Nat.lt_trans Nat.zero_lt_one (Nat.lt_of_not_le long))
    have settled : lead.Settled := by
      rcases List.mem_map.mp (subset lead List.mem_cons_self) with ⟨v, -, rfl⟩
      exact settled_simplify true v
    split at prepared
    next decimals =>
      rcases inexact_plain prepared with ⟨length, plain⟩
      refine ⟨length, Nat.lt_of_not_le long, plain, ?_⟩
      cases mapM_eq_ok_iff.mp prepared with
      | cons converted _ =>
        rcases map_eq_ok_iff.mp converted with ⟨y, toInexact, rfl⟩
        refine ⟨.inexact y, rfl, by simp [Settled], ?_⟩
        simp only [isZero, losesLead, decimals, toInexact, Bool.true_and]
    next exact =>
      cases prepared
      have none : (lead :: lower).any isDecimal = false := Bool.eq_false_iff.mpr exact
      have plain := any_isDecimal_eq_false_iff.mp none
      refine ⟨rfl, Nat.lt_of_not_le long, plain, lead, rfl, settled, ?_⟩
      rw [nonzero lead rfl, losesLead, none, Bool.false_and]

theorem reducesDegree_deflate {s : Settings} {exact : Bool} {current : Coefficients} {zero : Bool}
    (leads : Leads current zero) : ReducesDegree (deflate s exact current).rest := by
  fun_induction deflate s exact current with
  | case1 current short => exact faultsIn_ok _
  | case2 current long fault failed =>
    exact faultsIn_error.mpr (reducesDegree_findStep s exact current fault failed)
  | case3 current long step found fault failed =>
    have shorter := ((findStep_divides found).leads leads (Nat.lt_of_not_le long)).1
    exact faultsIn_error.mpr (reducesDegree_check (by omega) fault failed)
  | case4 current long step found shorter checked trace ih =>
    exact ih ((findStep_divides found).leads leads (Nat.lt_of_not_le long)).2

theorem reducesDegree_run {s : Settings} {cs stripped : Coefficients}
    (strips : cs.simplest.stripZeros = .ok stripped) : ReducesDegree (run s cs).roots := by
  unfold run
  split
  next fault failed => exact faultsIn_error.mpr (reducesDegree_prepare cs fault failed)
  next current prepared =>
    have leads := (prepare_leads strips prepared).2.2
    simp only [faultsIn_bind_iff]
    exact ⟨reducesDegree_deflate leads, fun last _ =>
      ⟨reducesDegree_closing last, fun closed _ => reducesDegree_sortRoots _⟩⟩

section Count

variable {s : Settings} {cs stripped : Coefficients} {n : Nat}
  (strips : cs.simplest.stripZeros = .ok stripped) (length : stripped.length = n + 1)

include strips length

/-- What a run that returns has counted. -/
theorem count_of_run {found : List Value} (returned : (run s cs).roots = .ok found) :
    (run s cs).steps.length = n - 2 ∧
      (∀ k (bound : k < (run s cs).steps.length),
        (run s cs).steps[k].quotient.length = n - k ∧
          ∃ lead, (run s cs).steps[k].quotient.head? = some lead ∧
            lead.isZero = .ok (losesLead stripped)) ∧
      found.length + (if losesLead stripped then 1 else 0) = n := by
  rcases chain_of_run returned with ⟨first, last, closed, prepared, chain, short, closes, perm⟩
  rcases prepare_leads strips prepared with ⟨firstLength, -, leads⟩
  rcases chain.leads leads with ⟨lastLeads, total, atLeast, each⟩
  have closedLength := closing_length lastLeads closes
  have foundLength : found.length = (run s cs).steps.length + closed.length := by
    rw [perm.length_eq, List.length_append, List.length_map]
  have some : (run s cs).steps.length ≠ 0 → 3 ≤ last.length := fun nonempty =>
    atLeast (mt List.length_eq_zero_iff.mpr nonempty)
  refine ⟨by omega, ?_, ?_⟩
  · intro k bound
    rcases each k bound with ⟨quotientLength, quotientLeads⟩
    rcases quotientLeads.lead with ⟨lead, head, -, checked⟩
    exact ⟨by omega, lead, head, checked⟩
  · cases lost : losesLead stripped with
    | true =>
      rw [lost, if_pos rfl] at closedLength
      rw [if_pos rfl]
      omega
    | false =>
      rw [lost, if_neg Bool.false_ne_true] at closedLength
      rw [if_neg Bool.false_ne_true]
      omega

/-- The steps, their degrees and the number of roots of a run, by the number of
coefficients without zeros in front: with the leading coefficient one root is
lost, and nothing else is.  No run finds that a root has not reduced the
degree. -/
theorem roots_count :
    (∀ found, (run s cs).roots = .ok found →
        (run s cs).steps.length = n - 2 ∧
          (∀ k (bound : k < (run s cs).steps.length),
            (run s cs).steps[k].quotient.length = n - k ∧
              ∃ lead, (run s cs).steps[k].quotient.head? = some lead ∧
                lead.isZero = .ok (losesLead stripped)) ∧
          found.length + (if losesLead stripped then 1 else 0) = n) ∧
      ∀ root left degree, (run s cs).roots ≠ .error (.degreeNotReduced root left degree) := by
  constructor
  · intro found returned
    exact count_of_run strips length returned
  · intro root left degree failed
    exact reducesDegree_run strips _ failed root left degree rfl

end Count

/-- A cubic has one step and three roots. -/
theorem roots_count_cubic :
    let cs : Coefficients := [.int 0, .int 5, .exact (-3) (-4) (by decide), .int 0, .int 0]
    let stripped : Coefficients := [.int 5, .exact (-3) (-4) (by decide), .int 0, .int 0]
    cs.simplest.stripZeros = .ok stripped ∧ stripped.length = 3 + 1 ∧
      ∃ found, (run {} cs).roots = .ok found ∧ (run {} cs).steps.length = 1 ∧
        found.length = 3 := by
  intro cs stripped
  have strips : cs.simplest.stripZeros = .ok stripped := by decide
  have returns : (run {} cs).roots.isOk = true := by decide +kernel
  have kept : losesLead stripped = false := by decide
  refine ⟨strips, rfl, ?_⟩
  cases returned : (run {} cs).roots with
  | error fault =>
    rw [returned] at returns
    contradiction
  | ok found =>
    rcases (roots_count (n := 3) strips rfl).1 found returned with ⟨steps, -, total⟩
    rw [kept] at total
    exact ⟨found, rfl, steps, total⟩

/-- The polynomial `1E-330 * x ^ 2 - 1E-308 * x` is of degree two, and one of its
roots is not returned: its leading coefficient is below the smallest double. -/
theorem small_lead_loses_root :
    let cs : Coefficients :=
      [.decimal (.finite false 1 (-330)), .decimal (.finite true 1 (-308)), .int 0]
    ∃ stripped found, cs.simplest.stripZeros = .ok stripped ∧ stripped.length = 2 + 1 ∧
      (run {} cs).roots = .ok found ∧ found.length ≠ 2 := by
  intro cs
  have strips : cs.simplest.stripZeros = .ok cs := by decide
  have returns : (run {} cs).roots.isOk = true := by decide +kernel
  cases returned : (run {} cs).roots with
  | error fault =>
    rw [returned] at returns
    contradiction
  | ok found =>
    have lost : losesLead cs = true := by decide +kernel
    rcases count_of_run (n := 2) strips rfl returned with ⟨-, -, total⟩
    rw [lost, if_pos rfl] at total
    exact ⟨cs, found, strips, rfl, rfl, by omega⟩

end ExactRoots.Deflation
