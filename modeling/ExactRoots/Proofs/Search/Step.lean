import ExactRoots.Coefficients.Basic
import ExactRoots.Proofs.Search.Strategy
import ExactRoots.Proofs.Value.Inexact

/-!
# The step of a state that has not moved

Newton's method, random search, the secant method and creeping move only to strictly better
points, so a state whose value they leave alone is the state that they were given, with its
step.  Snapping takes ties as well.  Where the rounded estimate is equal to the estimate, it is
taken as another point, and the step becomes the zero distance between both.  So it is for a
nested search that comes back to the estimate.
-/

namespace ExactRoots.Search

open Outcome

section Function

variable {f : ScalarFunction} {s : Settings} {state next : State}

/-- Where the value is no smaller, a state that descends has not changed. -/
theorem State.Descends.eq_of_size_le (descends : state.Descends f next)
    (larger : state.y.size ≤ next.y.size) : next = state := by
  rcases descends with same | ⟨-, -, less⟩
  · exact same
  · exact absurd less
      ((Binary64.not_lt next.y.size_isNaN state.y.size_isNaN).mpr larger)

/-! ## Snapping -/

/-- Whether an estimate rounded to some number of decimals has a value that is no larger. -/
def Ties (f : ScalarFunction) (best : Best) (places : List Nat) : Prop :=
  ∃ digits ∈ places, ∃ v point y, Value.round digits (.inexact best.x) = .ok v ∧
    v.toInexact = .ok point ∧ evaluate f point = .ok y ∧ y.size ≤ best.y.size

theorem snapFrom_moved {best next : Best} {places : List Nat} (taken : best.moved = true)
    (snapped : snapFrom f best places = .ok next) : next.moved = true := by
  induction places generalizing best with
  | nil =>
    cases snapped
    exact taken
  | cons digits rest ih =>
    rw [snapFrom] at snapped
    split at snapped
    next =>
      cases snapped
      exact taken
    next =>
      simp only [bind_eq_ok_iff] at snapped
      rcases snapped with ⟨v, -, point, -, y, -, snapped⟩
      refine ih ?_ snapped
      unfold Best.offerTie
      split
      · rfl
      · exact taken

/-- Snapping takes a tie if there is one. -/
theorem snapFrom_of_ties {best next : Best} {places : List Nat} (running : ¬ best.y.isZero = true)
    (ties : Ties f best places) (snapped : snapFrom f best places = .ok next) :
    next.moved = true := by
  induction places with
  | nil =>
    rcases ties with ⟨digits, member, -⟩
    contradiction
  | cons digits rest ih =>
    rw [snapFrom, if_neg running] at snapped
    simp only [bind_eq_ok_iff] at snapped
    rcases snapped with ⟨v, rounded, point, converted, y, evaluated, snapped⟩
    by_cases fits : y.size ≤ best.y.size
    · rw [Best.offerTie, if_pos fits] at snapped
      exact snapFrom_moved rfl snapped
    · rw [Best.offerTie, if_neg fits] at snapped
      refine ih ?_ snapped
      rcases ties with ⟨other, member, v', point', y', rounded', converted', evaluated', fits'⟩
      rcases List.mem_cons.mp member with rfl | member
      · rw [rounded] at rounded'
        cases rounded'
        rw [converted] at converted'
        cases converted'
        rw [evaluated] at evaluated'
        cases evaluated'
        exact absurd fits' fits
      · exact ⟨other, member, v', point', y', rounded', converted', evaluated', fits'⟩

/-- Without a tie snapping leaves its point alone. -/
theorem snapFrom_of_not_ties {best next : Best} {places : List Nat}
    (loses : best.y.isZero = true ∨ ¬ Ties f best places)
    (snapped : snapFrom f best places = .ok next) : next = best := by
  induction places with
  | nil =>
    cases snapped
    rfl
  | cons digits rest ih =>
    rw [snapFrom] at snapped
    split at snapped
    next =>
      cases snapped
      rfl
    next running =>
      have loses := loses.resolve_left running
      simp only [bind_eq_ok_iff] at snapped
      rcases snapped with ⟨v, rounded, point, converted, y, evaluated, snapped⟩
      by_cases fits : y.size ≤ best.y.size
      · exact absurd ⟨digits, List.mem_cons_self, v, point, y, rounded, converted, evaluated, fits⟩
          loses
      · rw [Best.offerTie, if_neg fits] at snapped
        refine ih (.inr ?_) snapped
        rintro ⟨other, member, found⟩
        exact loses ⟨other, List.mem_cons_of_mem digits member, found⟩

/-- Whether snapping takes a rounded estimate in place of the estimate of a state. -/
def State.Snaps (f : ScalarFunction) (state : State) : Prop :=
  state.x.isFinite = true ∧ ¬ state.isDone = true ∧ Ties f (.start state.x state.y) snapPlaces

/-- Snapping that takes a rounded estimate moves there. -/
theorem snap_eq_moveTo (moved : snap f state = .ok next) (snaps : state.Snaps f) :
    ∃ x y, next = state.moveTo x y := by
  rw [snap, if_pos snaps.1] at moved
  rcases bind_eq_ok_iff.mp moved with ⟨best, snapped, settled⟩
  have running : ¬ (Best.start state.x state.y).y.isZero = true := snaps.2.1
  have taken : best.moved = true := snapFrom_of_ties running snaps.2.2 snapped
  cases settled
  exact ⟨best.x, best.y, by rw [State.settle, if_pos taken]⟩

theorem snap_eq_self (moved : snap f state = .ok next) (stays : ¬ state.Snaps f) :
    next = state := by
  unfold snap at moved
  split at moved
  next finite =>
    rcases bind_eq_ok_iff.mp moved with ⟨best, snapped, settled⟩
    cases settled
    have loses : (Best.start state.x state.y).y.isZero = true ∨
        ¬ Ties f (.start state.x state.y) snapPlaces := by
      by_cases zero : state.y.isZero = true
      · exact .inl zero
      · exact .inr fun ties => stays ⟨finite, zero, ties⟩
    rw [snapFrom_of_not_ties loses snapped]
    rfl
  next =>
    cases moved
    rfl

/-! ## Nested searches -/

/-- Whether a nested search from the estimate of a state ends at a point, as at another estimate. -/
def NestedAt (f : ScalarFunction) (nested : Option Solver) (state : State) (x : Inexact) : Prop :=
  ∃ solve ∈ nested, ∃ gradient final, solve (reducedFor f gradient) state.x = .ok final ∧
    nestedEstimate state.x final = .ok (x, true)

/-- A nested search that is followed leaves the state alone, or moves it to where it has ended. -/
theorem followNested_eq {solve : Solver} {gradient : Inexact}
    (moved : followNested f solve gradient state = .ok next) :
    next = state ∨ ∃ x y final, next = state.moveTo x y ∧
      solve (reducedFor f gradient) state.x = .ok final ∧
      nestedEstimate state.x final = .ok (x, true) := by
  unfold followNested at moved
  split at moved
  next =>
    cases moved
    exact .inl rfl
  next => contradiction
  next final solved =>
    simp only [bind_eq_ok_iff] at moved
    rcases moved with ⟨⟨x, other⟩, estimated, y, -, moved⟩
    split at moved
    next taken =>
      cases moved
      rw [Bool.and_eq_true] at taken
      obtain rfl : other = true := taken.2
      exact .inr ⟨x, y, final, rfl, solved, estimated⟩
    next =>
      cases moved
      exact .inl rfl

/-- The strategy for repeated roots stays, or moves to where a nested search has ended. -/
theorem multiplicity_eq {nested : Option Solver}
    (moved : multiplicity s f nested state = .ok next) :
    next = state ∨ ∃ x y, next = state.moveTo x y ∧ NestedAt f nested state x := by
  have stay (stopped : Except.ok state = (.ok next : Except Fault State)) : next = state :=
    (Except.ok.inj stopped).symm
  unfold multiplicity at moved
  split at moved
  next => exact .inl (stay moved)
  next solve =>
    split at moved
    next => exact .inl (stay moved)
    next =>
      rcases bind_eq_ok_iff.mp moved with ⟨square, -, moved⟩
      split at moved
      next => exact .inl (stay moved)
      next =>
        simp only [bind_eq_ok_iff] at moved
        rcases moved with ⟨gradient, -, square, -, moved⟩
        split at moved
        next =>
          rcases followNested_eq moved with same | ⟨x, y, final, rfl, solved, ended⟩
          · exact .inl same
          · exact .inr ⟨x, y, rfl, solve, rfl, gradient, final, solved, ended⟩
        next => exact .inl (stay moved)

/-! ## All strategies -/

/-- A move from a finite estimate to an equal one is a step of zero. -/
theorem State.isZero_step_moveTo {x y : Inexact} (finite : state.x.isFinite = true)
    (still : x.beq state.x = true) : (state.moveTo x y).step.isZero = true :=
  Inexact.isZero_sub_of_beq still finite

/-- A state whose estimate a strategy leaves where it is keeps its step, unless the strategy
takes an equal estimate as another point.  Newton's method, random search, the secant method
and creeping then leave the whole state alone, and for that it is enough that the value at the
returned estimate is no smaller.  Snapping takes an equal estimate for another point wherever the
value is no zero and one of the roundings of the estimate is no worse, and the step is then zero,
since it is the distance between equal estimates.  The strategy for repeated roots does so only
where a nested search has ended at the estimate, as at another one. -/
theorem strategies_keep_step (s : Settings) (f : ScalarFunction) (state : State)
    (paired : state.Paired f) :
    (∀ attempts, ∀ strategy ∈
        [newton s f, randomSearch s f attempts, secant s f, creepSearch f], ∀ next,
      strategy state = .ok next → (∀ y, evaluate f next.x = .ok y → state.y.size ≤ y.size) →
        next = state) ∧
    (∀ next, snap f state = .ok next → next.x.beq state.x = true →
      (¬ state.Snaps f → next = state) ∧
        (state.Snaps f → next = state.moveTo next.x next.y ∧ next.step.isZero = true)) ∧
    ∀ nested next, multiplicity s f nested state = .ok next → next.x.beq state.x = true →
      next = state ∨ next = state.moveTo next.x next.y ∧ NestedAt f nested state next.x ∧
        (state.x.isFinite = true → next.step.isZero = true) := by
  constructor
  · intro attempts strategy listed next moved larger
    have descends : state.Descends f next := by
      simp only [List.mem_cons, List.not_mem_nil, or_false] at listed
      rcases listed with rfl | rfl | rfl | rfl
      · exact newton_descends moved
      · exact randomSearch_descends moved
      · exact secant_descends moved
      · exact creepSearch_descends moved
    exact descends.eq_of_size_le (larger next.y (descends.improves.paired paired))
  constructor
  · intro next moved still
    constructor
    · exact snap_eq_self moved
    · intro snaps
      rcases snap_eq_moveTo moved snaps with ⟨x, y, rfl⟩
      exact ⟨rfl, State.isZero_step_moveTo snaps.1 still⟩
  · intro nested next moved still
    rcases multiplicity_eq moved with same | ⟨x, y, rfl, ended⟩
    · exact .inl same
    · exact .inr ⟨rfl, ended, fun finite => State.isZero_step_moveTo finite still⟩

end Function

/-- From three halves the secant method for the root of two makes the value smaller, or changes
nothing at all. -/
theorem strategies_keep_step_square :
    let f := Coefficients.horner [.int 1, .int 0, .int (-2)]
    let state : State :=
      { x := .real 1.5, y := .real 0.25, step := .real 0.5, guess := .real 1.0, depth := 0 }
    state.Paired f ∧ ∀ next, secant {} f state = .ok next →
      (∀ y, evaluate f next.x = .ok y → state.y.size ≤ y.size) → next = state := by
  intro f state
  have paired : evaluate f state.x = .ok state.y := by decide
  exact ⟨paired, (strategies_keep_step {} f state paired).1 10 (secant {} f) (by simp)⟩

/-- Snapping three halves ends at three halves, and the step of a half becomes zero. -/
theorem snap_step_zero :
    let f := Coefficients.horner [.int 1, .int 0, .int (-2)]
    let state : State :=
      { x := .real 1.5, y := .real 0.25, step := .real 0.5, guess := .real 1.0, depth := 0 }
    state.Paired f ∧ ∃ next, snap f state = .ok next ∧ next.x = state.x ∧
      next.step = .real 0.0 ∧ next.step ≠ state.step := by
  intro f state
  have paired : evaluate f state.x = .ok state.y := by decide
  have snapped : snap f state = .ok (state.moveTo state.x state.y) := by decide +kernel
  exact ⟨paired, _, snapped, rfl, by decide, by decide⟩

end ExactRoots.Search
