import ExactRoots.Coefficients.Basic
import ExactRoots.Proofs.Search.Faults
import ExactRoots.Proofs.Search.Strategy

/-!
# Runs of a search

The states that a search goes through are those that single moves lead to from
the initial one, and a nested search starts from any of them with another
function.  What a search returns, and where it stalls, follows from its last
round.
-/

namespace ExactRoots.Search

open Outcome

/-! ## Reached states -/

/-- One move of a search: a strategy, the first iterations of Newton's method, or
a random burst within it. -/
inductive Move (s : Settings) (f : ScalarFunction) (nested : Option Solver) :
    State → State → Prop
  | strategy {strategy : Strategy} {state next : State}
      (member : strategy ∈ ensemble s f nested) (moved : strategy state = .ok next) :
      Move s f nested state next
  | newton {iterations : Nat} {state next : State}
      (moved : newtonFrom s f iterations differenceScale state = .ok next) :
      Move s f nested state next
  | burst {state next : State} (moved : randomSearch s f burstLength state = .ok next) :
      Move s f nested state next

/-- A search for a zero of a function from an estimate, and how deeply it is
nested. -/
structure Task where
  depth : Int
  function : ScalarFunction
  start : Inexact

namespace Task

variable (s : Settings)

/-- The states that a search goes through. -/
inductive Reaches (task : Task) : State → Prop
  | start {state : State} (begun : initial s task.function task.depth task.start = .ok state) :
      Reaches task state
  | move {state next : State} (reached : Reaches task state)
      (moved : Move s task.function (nested s task.depth) state next) : Reaches task next

/-- The searches that a search starts, directly or through others, and itself: a
nested one starts from an estimate, for the function reduced by the slope
there. -/
inductive Starts : Task → Task → Prop
  | self (task : Task) : Starts task task
  | nested {task inner : Task} {state : State} {gradient : Inexact} (reached : task.Reaches s state)
      (shallow : task.depth < mostDepth)
      (sloped : slope task.function differenceScale state.x = .ok gradient)
      {start : Inexact} (converted : (Value.inexact state.x).toInexact = .ok start)
      (rest : Starts ⟨task.depth + 1, reducedFor task.function gradient, start⟩ inner) :
      Starts task inner

end Task

variable {s : Settings}

/-- A nested search is a search one level deeper. -/
theorem nested_eq {depth : Int} (shallow : depth < mostDepth) :
    nested s depth =
      some (fun f x => do solve s (depth + 1) f (← (Value.inexact x).toInexact)) := by
  obtain ⟨levels, level⟩ : ∃ levels, (mostDepth - depth).toNat = levels + 1 :=
    ⟨(mostDepth - (depth + 1)).toNat, by omega⟩
  have deeper : (mostDepth - (depth + 1)).toNat = levels := by omega
  rw [nested, level, nestedAt]
  unfold solve
  rw [nested, deeper]

/-- The deepest searches start no others. -/
theorem nested_eq_none {depth : Int} (deep : mostDepth ≤ depth) : nested s depth = none := by
  rw [nested, Int.toNat_eq_zero.mpr (by omega), nestedAt]

theorem Move.improves {f : ScalarFunction} {nested : Option Solver} {state next : State}
    (moved : Move s f nested state next) : state.Improves f next := by
  cases moved with
  | strategy member moved => exact ensemble_improves member moved
  | newton moved => exact (newtonFrom_descends moved).improves
  | burst moved => exact (randomSearch_descends moved).improves

theorem initial_paired {f : ScalarFunction} {depth : Int} {x : Inexact} {state : State}
    (begun : initial s f depth x = .ok state) : state.x = x ∧ state.Paired f := by
  rcases bind_eq_ok_iff.mp begun with ⟨y, evaluated, started⟩
  cases started
  exact ⟨rfl, evaluated⟩

/-! ## Searches among some points -/

section Points

variable {F : ScalarFunction → Prop} {P : Fault → Prop} {R : Inexact → Prop}
  (reports : Reports s P) (confines : ∀ f, F f → Confines s P R f)
  (inherits : ∀ f, F f → ∀ gradient, F (reducedFor f gradient))

include reports confines inherits

theorem Move.within {f : ScalarFunction} (member : F f) {depth : Int} {state next : State}
    (within : state.Within R) (moved : Move s f (nested s depth) state next) : next.Within R := by
  cases moved with
  | strategy listed moved =>
    exact (staysWithin_strategies reports confines inherits member depth listed within).2 next moved
  | newton moved => exact (ends_newtonFrom (confines f member) _ _ within).2 next moved
  | burst moved => exact (ends_randomSearch (confines f member) _ within).2 next moved

/-- No state that a search goes through leaves the points of the search. -/
theorem Task.Reaches.within {task : Task} (member : F task.function) (start : R task.start)
    {state : State} (reached : task.Reaches s state) : state.Within R := by
  induction reached with
  | start begun =>
    rcases bind_eq_ok_iff.mp begun with ⟨y, evaluated, same⟩
    cases same
    exact ⟨start, ((confines _ member).evaluate _ start).2 y evaluated, start⟩
  | move _ moved ih => exact Move.within reports confines inherits member ih moved

/-- Every search that is started on the way is for a function of the class, from one of the
points. -/
theorem Task.Starts.within {task inner : Task} (starts : Task.Starts s task inner)
    (member : F task.function) (start : R task.start) : F inner.function ∧ R inner.start := by
  induction starts with
  | self => exact ⟨member, start⟩
  | nested reached _ _ converted _ ih =>
    have point := (Task.Reaches.within reports confines inherits member start reached).x
    exact ih (inherits _ member _) ((confines _ member).closed.toInexact point converted)

end Points

namespace Task

variable {task : Task}

/-- Every state that a search goes through pairs its estimate with the value
there. -/
theorem Reaches.paired {state : State} (reached : task.Reaches s state) :
    state.Paired task.function := by
  induction reached with
  | start begun => exact (initial_paired begun).2
  | move _ moved ih => exact moved.improves.paired ih

/-- The strategies of a search. -/
def strategies (s : Settings) (task : Task) : List Strategy :=
  ensemble s task.function (nested s task.depth)

theorem Reaches.runAll {strategies : List Strategy} {state next : State}
    (own : ∀ strategy ∈ strategies, strategy ∈ task.strategies s)
    (reached : task.Reaches s state) (ran : Search.runAll strategies state = .ok next) :
    task.Reaches s next ∧ state.Improves task.function next := by
  induction strategies generalizing state with
  | nil =>
    cases ran
    exact ⟨reached, .refl _⟩
  | cons strategy rest ih =>
    rw [List.forall_mem_cons] at own
    rcases bind_eq_ok_iff.mp ran with ⟨middle, moved, ran⟩
    have reachedMiddle : task.Reaches s middle := .move reached (.strategy own.1 moved)
    have improved := ensemble_improves own.1 moved
    split at ran
    next =>
      cases ran
      exact ⟨reachedMiddle, improved⟩
    next =>
      rcases ih own.2 reachedMiddle ran with ⟨reachedNext, improvedNext⟩
      exact ⟨reachedNext, improved.trans improvedNext⟩

/-- The last round of a search, with the distance by which it moved the
estimate. -/
structure LastRound (s : Settings) (task : Task) (before final : State)
    (displacement : Float) : Prop where
  reached : task.Reaches s before
  ran : Search.runAll (task.strategies s) before = .ok final
  displaced : displacement = (final.x.sub before.x).size

/-- Rounds end at a zero or with a full round, if there is any round. -/
theorem Reaches.rounds {loops : Nat} {state final : State} {displacement last : Float}
    (reached : task.Reaches s state)
    (ran : Search.rounds s (task.strategies s) loops state displacement = .ok (final, last)) :
    task.Reaches s final ∧ state.Improves task.function final ∧
      (final.isDone = true ∨ (loops = 0 ∧ final = state ∧ last = displacement) ∨
        ∃ before, LastRound s task before final last) := by
  induction loops generalizing state displacement with
  | zero =>
    cases ran
    exact ⟨reached, .refl _, .inr (.inl ⟨rfl, rfl, rfl⟩)⟩
  | succ loops ih =>
    rw [Search.rounds] at ran
    split at ran
    next zero =>
      cases ran
      exact ⟨reached, .refl _, .inl zero⟩
    next =>
      rcases bind_eq_ok_iff.mp ran with ⟨next, moved, ran⟩
      rcases reached.runAll (fun _ => id) moved with ⟨reachedNext, improved⟩
      have round : LastRound s task state next (next.x.sub state.x).size :=
        ⟨reached, moved, rfl⟩
      split at ran
      next zero =>
        cases ran
        exact ⟨reachedNext, improved, .inl zero⟩
      next =>
        rcases bind_eq_ok_iff.mp ran with ⟨rests, -, ran⟩
        split at ran
        next =>
          cases ran
          exact ⟨reachedNext, improved, .inr (.inr ⟨state, round⟩)⟩
        next =>
          rcases ih reachedNext ran with ⟨reachedFinal, improvedFinal, ended⟩
          refine ⟨reachedFinal, improved.trans improvedFinal, ?_⟩
          rcases ended with zero | ⟨rfl, rfl, rfl⟩ | ended
          · exact .inl zero
          · exact .inr (.inr ⟨state, round⟩)
          · exact .inr (.inr ended)

/-- What a search has found: a point that is no worse than the start and within
the tolerance, and that is a zero or hardly moved in the last round. -/
structure Found (s : Settings) (task : Task) (first : Inexact) (final : State) : Prop where
  reached : task.Reaches s final
  paired : evaluate task.function final.x = .ok final.y
  within : final.y.size ≤ s.tolerance
  no_worse : final.y.size ≤ first.size
  at_rest : (∃ value, task.function (.inexact final.x) = .ok value ∧
      value.toInexact = .ok final.y ∧ final.y.isZero = true) ∨
    ∃ before displacement, LastRound s task before final displacement ∧
      displacement ≤ s.tolerance

/-- Where a search has stalled: its final point is no zero, and it is beyond the
tolerance or moved further than that in the last round. -/
structure Stalled (s : Settings) (task : Task) (stall : Stall) : Prop where
  last_round : ∃ before final, LastRound s task before final stall.displacement ∧
    stall.x = final.x ∧ stall.y = final.y
  paired : evaluate task.function stall.x = .ok stall.y
  nonzero : stall.y.isZero = false
  beyond : s.tolerance < stall.y.size ∨ s.tolerance < stall.displacement

/-- A function with value zero has not failed. -/
theorem value_of_isZero {f : ScalarFunction} {x y : Inexact} (evaluated : evaluate f x = .ok y)
    (zero : y.isZero = true) : ∃ value, f (.inexact x) = .ok value ∧ value.toInexact = .ok y := by
  unfold evaluate evaluateAt at evaluated
  split at evaluated
  next y' computed =>
    cases evaluated
    exact bind_eq_ok_iff.mp computed
  next =>
    split at evaluated
    next =>
      cases evaluated
      contradiction
    next => contradiction

variable (valid : s.Valid)

include valid

/-- A search with a positive budget ends at a zero or with a full round. -/
theorem ends {first final : State} {displacement : Float}
    (begun : initial s task.function task.depth task.start = .ok first)
    (ran : Search.rounds s (task.strategies s) s.loops first 0.0 = .ok (final, displacement)) :
    task.Reaches s final ∧ first.Improves task.function final ∧
      (final.isDone = true ∨ ∃ before, LastRound s task before final displacement) := by
  have positive := valid.loops_pos
  rcases Reaches.rounds (.start begun) ran with ⟨reached, improved, zero | ⟨none, -⟩ | ended⟩
  · exact ⟨reached, improved, .inl zero⟩
  · omega
  · exact ⟨reached, improved, .inr ended⟩

theorem found_of_solve {final : State}
    (solved : solve s task.depth task.function task.start = .ok final) :
    ∃ first, evaluate task.function task.start = .ok first ∧ task.Found s first final := by
  have tolerance : s.tolerance.isNaN = false := (Binary64.isNaN_of_lt valid.tolerance_pos).2
  simp only [solve, solveWith, bind_eq_ok_iff] at solved
  rcases solved with ⟨first, begun, ⟨state, displacement⟩, ran, checked⟩
  split at checked
  next converged =>
    cases checked
    rcases ends valid begun ran with ⟨reached, improved, ended⟩
    rcases initial_paired begun with ⟨sameStart, paired⟩
    have pairedFinal := reached.paired
    simp only [Search.converged, State.isDone, Bool.or_eq_true, Bool.not_eq_true',
      Bool.or_eq_false_iff, decide_eq_false_iff_not] at converged
    have within (bounded : ¬ s.tolerance < state.y.size) : state.y.size ≤ s.tolerance :=
      (Binary64.not_lt tolerance state.y.size_isNaN).mp bounded
    refine ⟨first.y, ?_, reached, pairedFinal, ?_, improved.size_le, ?_⟩
    · rw [← sameStart]
      exact paired
    · rcases converged with zero | ⟨bounded, -⟩
      · exact Inexact.size_le_of_isZero zero valid.tolerance_pos
      · exact within bounded
    · rcases ended with zero | ⟨before, round⟩
      · rcases value_of_isZero pairedFinal zero with ⟨value, computed, converted⟩
        exact .inl ⟨value, computed, converted, zero⟩
      · rcases converged with zero | ⟨-, settled⟩
        · rcases value_of_isZero pairedFinal zero with ⟨value, computed, converted⟩
          exact .inl ⟨value, computed, converted, zero⟩
        · right
          refine ⟨before, displacement, round, ?_⟩
          rw [round.displaced] at settled ⊢
          exact (Binary64.not_lt tolerance (Inexact.size_isNaN _)).mp settled
  next => simp [bind_eq_ok_iff] at checked

theorem stalled_of_solve {stall : Stall}
    (failed : solve s task.depth task.function task.start = .error (.notConverged stall)) :
    (∃ v, task.function v = .error (.notConverged stall)) ∨ task.Stalled s stall := by
  have own {α : Type} {outcome : Except Fault α}
      (raises : FaultsIn (Raises task.function) outcome)
      (failed : outcome = .error (.notConverged stall)) :
      ∃ v, task.function v = .error (.notConverged stall) := by
    rcases raises _ failed with operational | raised
    · cases operational
    · exact raised
  simp only [solve, solveWith, bind_eq_error_iff] at failed
  rcases failed with failed | ⟨first, begun, failed | ⟨⟨final, displacement⟩, ran, failed⟩⟩
  · exact .inl (own (by simp [initial]) failed)
  · have each : ∀ strategy ∈ task.strategies s, ∀ state : State, state.Within Everywhere →
        Ends (Raises task.function) (State.Within Everywhere) (strategy state) :=
      fun strategy listed state _ =>
        ⟨raises_strategies listed state, fun next _ => next.within_everywhere⟩
    have squared : FaultsIn (Raises task.function) (squaredTolerance s) :=
      (confines_raises raises_apply).squaredTolerance
    exact .inl (own (ends_rounds each squared _ first.within_everywhere _).1 failed)
  · split at failed
    next => contradiction
    next unsettled =>
      rcases bind_eq_error_iff.mp failed with failed | ⟨_, told, same⟩
      · exact .inl (own (reports_raises _ _) failed)
      cases same
      rcases stallAt_eq_ok_iff.mp told with ⟨loops, iterations, -, -, rfl⟩
      rcases ends valid begun ran with ⟨reached, -, ended⟩
      simp only [Search.converged, Bool.or_eq_true, Bool.not_eq_true', not_or,
        Bool.not_eq_true, Bool.not_eq_false, decide_eq_true_eq] at unsettled
      rcases unsettled with ⟨nonzero, beyond⟩
      rcases ended with zero | ⟨before, round⟩
      · rw [zero] at nonzero
        contradiction
      · exact .inr ⟨⟨before, final, round, rfl, rfl⟩, reached.paired, nonzero, by simpa using beyond⟩

end Task

/-! ## Finding one root -/

/-- With valid settings a search keeps every estimate with its value, also in the
searches that it nests, and no strategy makes a value larger or leaves a zero.
What is returned is the simplest form of a point that the search has found, and a
stall that the function has not raised itself is the search's own. -/
theorem findOneRoot_sound {s : Settings} (valid : s.Valid) (f : ScalarFunction) (depth : Int)
    (guess : Value) :
    (∀ start, guess.toInexact = .ok start →
        ∀ inner, Task.Starts s ⟨depth, f, start⟩ inner →
          ∀ state, inner.Reaches s state → evaluate inner.function state.x = .ok state.y) ∧
      (∀ g solver, ∀ strategy ∈ ensemble s g solver, ∀ state next,
        strategy state = .ok next →
          next.y.size ≤ state.y.size ∧ (state.y.isZero = true → next = state)) ∧
      (∀ v, findOneRoot s f depth guess = .ok v →
        ∃ start first final, guess.toInexact = .ok start ∧ evaluate f start = .ok first ∧
          Task.Found s ⟨depth, f, start⟩ first final ∧ v = (Value.inexact final.x).simplest) ∧
      ∀ stall, findOneRoot s f depth guess = .error (.notConverged stall) →
        (∃ v, f v = .error (.notConverged stall)) ∨
          ∃ start, guess.toInexact = .ok start ∧ Task.Stalled s ⟨depth, f, start⟩ stall := by
  refine ⟨?_, ?_, ?_, ?_⟩
  · intro start _ inner _ state reached
    exact reached.paired
  · intro g solver strategy member state next moved
    have improved := ensemble_improves member moved
    exact ⟨improved.size_le, improved.done⟩
  · intro v returned
    simp only [findOneRoot, bind_eq_ok_iff] at returned
    rcases returned with ⟨start, converted, final, solved, simplified⟩
    cases simplified
    rcases @Task.found_of_solve s ⟨depth, f, start⟩ valid final solved with
      ⟨first, evaluated, found⟩
    exact ⟨start, first, final, converted, evaluated, found, rfl⟩
  · intro stall failed
    simp only [findOneRoot, bind_eq_error_iff] at failed
    rcases failed with failed | ⟨start, converted, failed | ⟨final, -, failed⟩⟩
    · cases Value.operational_toInexact guess _ failed
    · rcases @Task.stalled_of_solve s ⟨depth, f, start⟩ valid stall failed with raised | stalled
      · exact .inl raised
      · exact .inr ⟨start, converted, stalled⟩
    · contradiction

/-- From two the search finds the positive root of a quadratic. -/
theorem findOneRoot_sound_quadratic :
    let f := Coefficients.horner [.int 1, .int 0, .int (-1)]
    ({} : Settings).Valid ∧ findOneRoot {} f 0 (.int 2) = .ok (.int 1) ∧
      ∃ start first final, (Value.int 2).toInexact = .ok start ∧ evaluate f start = .ok first ∧
        Task.Found {} ⟨0, f, start⟩ first final ∧ .int 1 = (Value.inexact final.x).simplest := by
  intro f
  have returned : findOneRoot {} f 0 (.int 2) = .ok (.int 1) := by decide +kernel
  exact ⟨Settings.valid_default, returned,
    (findOneRoot_sound Settings.valid_default f 0 (.int 2)).2.2.1 (.int 1) returned⟩

end ExactRoots.Search
