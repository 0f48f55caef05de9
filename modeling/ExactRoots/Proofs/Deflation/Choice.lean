import ExactRoots.Deflation.Snap
import ExactRoots.Proofs.Binary64.Order
import ExactRoots.Proofs.Outcome

/-!
# Choosing between a root and its candidates

Offering one candidate after another never makes a choice worse.  It ends with the root itself, if
no candidate is as good, and otherwise with a candidate that is no worse than the root; no candidate
is better.  A root whose residual is NaN stays, as nothing compares with it.
-/

namespace ExactRoots.Deflation

open Outcome

/-- Whether a choice between a root and the candidates that were offered is the root, with no
candidate as good, or a candidate no worse than the root, and no candidate is better. -/
structure Choice.IsBest (cs : Coefficients) (root : Value) (baseline : Float)
    (offered : List Value) (c : Choice) : Prop where
  measured : residual cs c.value = .ok c.size
  origin : (c = ⟨root, baseline, false⟩ ∧
      ∀ v ∈ offered, ∀ size, residual cs v = .ok size → ¬ size ≤ baseline) ∨
    (c.value ∈ offered ∧ c.size ≤ baseline)
  least : ∀ v ∈ offered, ∃ size, residual cs v = .ok size ∧ ¬ size < c.size

namespace Choice.IsBest

variable {cs : Coefficients} {root v : Value} {baseline size : Float} {offered rest : List Value}
  {c next : Choice}

theorem start (measured : residual cs root = .ok baseline) :
    IsBest cs root baseline [] ⟨root, baseline, false⟩ where
  measured := measured
  origin := .inl ⟨rfl, List.forall_mem_nil _⟩
  least := List.forall_mem_nil _

/-- What is no worse than the best choice is no worse than the root. -/
theorem le_baseline (best : c.IsBest cs root baseline offered) (noWorse : size ≤ c.size) :
    size ≤ baseline := by
  rcases best.origin with ⟨rfl, -⟩ | ⟨-, replaced⟩
  · exact noWorse
  · exact Binary64.le_trans noWorse replaced

/-- A candidate that is no worse takes the place of the choice. -/
theorem replace {replaced : Bool} (best : c.IsBest cs root baseline offered)
    (evaluated : residual cs v = .ok size) (noWorse : size ≤ c.size) :
    IsBest cs root baseline (offered ++ [v]) ⟨v, size, replaced⟩ where
  measured := evaluated
  origin := .inr ⟨List.mem_append_right _ List.mem_cons_self, best.le_baseline noWorse⟩
  least := by
    rw [List.forall_mem_append, List.forall_mem_singleton]
    refine ⟨?_, size, evaluated, Binary64.not_lt_self size⟩
    intro earlier member
    rcases best.least earlier member with ⟨other, measured, notLess⟩
    exact ⟨other, measured, Binary64.not_lt_of_le_of_not_lt noWorse notLess⟩

/-- The choice stays beside a candidate that is not better, nor as good as the root itself. -/
theorem keep (best : c.IsBest cs root baseline offered) (evaluated : residual cs v = .ok size)
    (notLess : ¬ size < c.size) (noTie : size ≤ c.size → c.replaced = true) :
    c.IsBest cs root baseline (offered ++ [v]) where
  measured := best.measured
  origin := by
    rcases best.origin with ⟨rfl, unmatched⟩ | ⟨member, noWorse⟩
    · refine .inl ⟨rfl, ?_⟩
      rw [List.forall_mem_append, List.forall_mem_singleton]
      refine ⟨unmatched, fun other measured asGood => ?_⟩
      obtain rfl : size = other := Except.ok.inj (evaluated.symm.trans measured)
      exact absurd (noTie asGood) Bool.false_ne_true
    · exact .inr ⟨List.mem_append_left _ member, noWorse⟩
  least := by
    rw [List.forall_mem_append, List.forall_mem_singleton]
    exact ⟨best.least, size, evaluated, notLess⟩

/-- An offer leaves the best choice. -/
theorem offer (best : c.IsBest cs root baseline offered) (evaluated : residual cs v = .ok size) :
    (c.offer v size).IsBest cs root baseline (offered ++ [v]) := by
  unfold Choice.offer
  split
  next accepted =>
    simp only [Bool.or_eq_true, Bool.and_eq_true, decide_eq_true_eq] at accepted
    exact best.replace evaluated (accepted.elim Binary64.le_of_lt And.left)
  next rejected =>
    simp only [Bool.or_eq_true, Bool.and_eq_true, decide_eq_true_eq, not_or, not_and,
      Bool.not_eq_true', Bool.not_eq_false] at rejected
    exact best.keep evaluated rejected.1 rejected.2

/-- Offering every candidate leaves the best choice. -/
theorem choose (best : c.IsBest cs root baseline offered)
    (chosen : Deflation.choose cs c rest = .ok next) :
    next.IsBest cs root baseline (offered ++ rest) := by
  induction rest generalizing c offered with
  | nil =>
    cases chosen
    rwa [List.append_nil]
  | cons v rest ih =>
    rcases bind_eq_ok_iff.mp chosen with ⟨size, evaluated, chosen⟩
    rw [List.append_cons]
    exact ih (best.offer evaluated) chosen

end Choice.IsBest

section Snapping

variable {s : Settings} {cs : Coefficients} {exact : Bool} {root result : Value}

/-- A candidate is an exact value that the root was converted to, or the root rounded to
decimals. -/
theorem candidate_cases {v : Value} {offered : List Value}
    (listed : candidates s exact root = .ok offered) (member : v ∈ offered) :
    (exact = true ∧ v.isExact = true ∧ (root.recover s.maxDenominator s.snapDigits = .ok v ∨
        root.nearestRational s.maxDenominator = .ok v)) ∨
      (exact = false ∧ ∃ x, v = (Value.inexact x).simplest) := by
  unfold candidates at listed
  split at listed
  next wanted =>
    simp only [bind_eq_ok_iff] at listed
    rcases listed with ⟨recovered, recovery, nearest, approximation, kept⟩
    cases kept
    rcases List.mem_filter.mp member with ⟨member, isExact⟩
    refine .inl ⟨wanted, isExact, ?_⟩
    rcases List.mem_cons.mp member with rfl | member
    · exact .inl recovery
    · obtain rfl := List.mem_singleton.mp member
      exact .inr approximation
  next unwanted =>
    simp only [bind_eq_ok_iff] at listed
    rcases listed with ⟨rounded, -, x, -, kept⟩
    cases kept
    exact .inr ⟨Bool.eq_false_iff.mpr unwanted, x, List.mem_singleton.mp member⟩

/-- A root is snapped to the best choice between it and its candidates. -/
theorem exists_isBest_of_snapRoot (returned : snapRoot s cs exact root = .ok result) :
    ∃ baseline offered best, residual cs root = .ok baseline ∧
      candidates s exact root = .ok offered ∧
        Choice.IsBest cs root baseline offered best ∧ best.value = result := by
  simp only [snapRoot, bind_eq_ok_iff] at returned
  rcases returned with ⟨baseline, measured, offered, listed, best, chosen, taken⟩
  cases taken
  exact ⟨baseline, offered, best, measured, listed, (Choice.IsBest.start measured).choose chosen, rfl⟩

/-- A root is snapped to itself or to a candidate. -/
theorem eq_or_mem_of_snapRoot (returned : snapRoot s cs exact root = .ok result) :
    ∃ offered, candidates s exact root = .ok offered ∧ (result = root ∨ result ∈ offered) := by
  rcases exists_isBest_of_snapRoot returned with ⟨baseline, offered, best, -, listed, spec, rfl⟩
  refine ⟨offered, listed, ?_⟩
  rcases spec.origin with ⟨rfl, -⟩ | ⟨member, -⟩
  · exact .inl rfl
  · exact .inr member

end Snapping

end ExactRoots.Deflation
