import ExactRoots.Deflation.Roots
import ExactRoots.Proofs.Deflation.Choice
import ExactRoots.Proofs.Value.Plain

/-!
# Chains of deflations

A run that returns leaves a chain: every step divides its root out of what the
step before it left, for as long as there are more than three coefficients.  The
roots that it returns are those of the steps and of the closing formula, in
another order.
-/

namespace ExactRoots.Deflation

open Outcome

open Value

/-- Whether a step divides its root out of a polynomial, wherever the root comes
from; it is never a decimal. -/
structure Step.Divides (step : Step) (current : Coefficients) : Prop where
  plain : step.root.Plain
  divides : ∃ negated, step.root.neg = .ok negated ∧
    current.divide [.int 1, negated.simplest] = .ok ⟨step.quotient, step.remainder⟩

/-- The steps lead from the first polynomial to the last, each dividing a root out
of more than three coefficients. -/
inductive Chain : Coefficients → List Step → Coefficients → Prop
  | done (current : Coefficients) : Chain current [] current
  | next {current last : Coefficients} {step : Step} {steps : List Step}
      (long : 3 < current.length) (divides : step.Divides current)
      (rest : Chain step.quotient steps last) : Chain current (step :: steps) last

theorem plain_of_isExact {v : Value} (exact : v.isExact = true) : v.Plain := by
  cases v with
  | decimal d => contradiction
  | _ => rfl

/-- No simpler value that may take the place of a root is a decimal. -/
theorem candidates_plain {s : Settings} {exact : Bool} {root : Value} {simpler : List Value}
    (listed : candidates s exact root = .ok simpler) : ∀ v ∈ simpler, v.Plain := by
  intro v member
  rcases candidate_cases listed member with ⟨-, isExact, -⟩ | ⟨-, x, rfl⟩
  · exact plain_of_isExact isExact
  · exact (simplify_inexact_plain true x).1

theorem snapRoot_plain {s : Settings} {cs : Coefficients} {exact : Bool} {root snapped : Value}
    (plain : root.Plain) (found : snapRoot s cs exact root = .ok snapped) : snapped.Plain := by
  rcases eq_or_mem_of_snapRoot found with ⟨offered, listed, rfl | candidate⟩
  · exact plain
  · exact candidates_plain listed _ candidate

theorem findOneRoot_plain {s : Settings} {f : ScalarFunction} {depth : Int} {guess found : Value}
    (returned : findOneRoot s f depth guess = .ok found) : found.Plain := by
  simp only [findOneRoot, bind_eq_ok_iff] at returned
  rcases returned with ⟨start, -, final, -, simplified⟩
  cases simplified
  exact (simplify_inexact_plain true final.x).1

theorem findStep_divides {s : Settings} {exact : Bool} {current : Coefficients} {step : Step}
    (found : findStep s exact current = .ok step) : step.Divides current := by
  simp only [findStep, bind_eq_ok_iff, pure_eq_ok, Except.ok.injEq] at found
  rcases found with
    ⟨smooth, -, zero, searched, root, snapped, negated, negation, division, divided, rfl⟩
  exact ⟨snapRoot_plain (findOneRoot_plain searched) snapped, negated, negation, divided⟩

/-- A deflation that ends is a chain down to at most three coefficients. -/
theorem chain_of_deflate {s : Settings} {exact : Bool} {current last : Coefficients}
    (ended : (deflate s exact current).rest = .ok last) :
    Chain current (deflate s exact current).steps last ∧ last.length ≤ 3 := by
  fun_induction deflate s exact current with
  | case1 current short =>
    cases ended
    exact ⟨.done _, short⟩
  | case2 current long fault failed => contradiction
  | case3 current long step found fault failed => contradiction
  | case4 current long step found shorter checked trace ih =>
    rcases ih ended with ⟨rest, short⟩
    exact ⟨.next (Nat.lt_of_not_le long) (findStep_divides found) rest, short⟩

/-- Sorting changes nothing but the order. -/
theorem perm_of_sortRoots {found sorted : List Value} (succeeded : sortRoots found = .ok sorted) :
    sorted.Perm found := by
  simp only [sortRoots, bind_eq_ok_iff, pure_eq_ok, Except.ok.injEq] at succeeded
  rcases succeeded with ⟨keyed, mapped, rfl⟩
  have entries : List.Forall₂ (fun v entry => v = entry.2) found keyed := by
    apply (mapM_eq_ok_iff.mp mapped).imp
    intro v entry keying
    rcases bind_eq_ok_iff.mp keying with ⟨key, -, paired⟩
    cases paired
    rfl
  have values : found = keyed.map (·.2) := by
    rw [← List.forall₂_eq_eq_eq, List.forall₂_map_right_iff]
    exact entries
  rw [values]
  exact (List.mergeSort_perm keyed _).map _

/-- A run that returns is a chain of steps from the prepared polynomial, closed by
a formula; what it returns is what the steps and the formula found. -/
theorem chain_of_run {s : Settings} {cs : Coefficients} {found : List Value}
    (returned : (run s cs).roots = .ok found) :
    ∃ first last closed, prepare cs = .ok first ∧ Chain first (run s cs).steps last ∧
      last.length ≤ 3 ∧ closing last = .ok closed ∧
        found.Perm ((run s cs).steps.map (·.root) ++ closed) := by
  cases prepared : prepare cs with
  | error fault => simp [run, prepared] at returned
  | ok first =>
    simp only [run, prepared, bind_eq_ok_iff] at returned ⊢
    rcases returned with ⟨last, ended, closed, closing, sorted⟩
    rcases chain_of_deflate ended with ⟨chain, short⟩
    exact ⟨first, last, closed, rfl, chain, short, closing, perm_of_sortRoots sorted⟩

end ExactRoots.Deflation
