import ExactRoots.Proofs.Inexact
import ExactRoots.Proofs.Outcome
import ExactRoots.Search.Solve

/-!
# Strategies never make an estimate worse

Every strategy keeps an estimate and the value there together, never ends at a
larger value, and leaves a zero as it is.  A strategy climbs from point to point
and takes the better one, so these laws hold of single moves and carry over.
-/

namespace ExactRoots.Search

open Outcome

/-- Whether the value of a state is that of the function at its estimate. -/
def State.Paired (f : ScalarFunction) (state : State) : Prop :=
  evaluate f state.x = .ok state.y

/-- Whether the value of a point is that of the function there. -/
def Best.Paired (f : ScalarFunction) (best : Best) : Prop :=
  evaluate f best.x = .ok best.y

/-- A later point of a climb against an earlier one. -/
structure Best.Improves (f : ScalarFunction) (best next : Best) : Prop where
  paired : best.Paired f → next.Paired f
  size_le : next.y.size ≤ best.y.size
  done : best.y.isZero = true → next = best
  unmoved : next.moved = false → next = best

/-- A later point of a climb is an earlier one, or a strictly better one. -/
def Best.Descends (f : ScalarFunction) (best next : Best) : Prop :=
  next = best ∨ ¬ best.y.isZero = true ∧ next.moved = true ∧ next.Paired f ∧
    next.y.size < best.y.size

/-- A later state of a search against an earlier one. -/
structure State.Improves (f : ScalarFunction) (state next : State) : Prop where
  paired : state.Paired f → next.Paired f
  size_le : next.y.size ≤ state.y.size
  done : state.isDone = true → next = state

/-- A later state of a search is an earlier one, or a strictly better one. -/
def State.Descends (f : ScalarFunction) (state next : State) : Prop :=
  next = state ∨ ¬ state.isDone = true ∧ next.Paired f ∧ next.y.size < state.y.size

section Function

variable {f : ScalarFunction} {s : Settings}

/-! ## Climbs -/

namespace Best

variable {best next : Best} {x y : Inexact}

/-- A climb that stops where it is. -/
theorem Descends.stay (stopped : Except.ok best = (.ok next : Except Fault Best)) :
    best.Descends f next := by
  cases stopped
  exact .inl rfl

theorem Descends.trans {first second third : Best} (head : first.Descends f second)
    (tail : second.Descends f third) : first.Descends f third := by
  rcases head with rfl | ⟨running, moved, paired, less⟩
  · exact tail
  · rcases tail with rfl | ⟨-, moved', paired', less'⟩
    · exact .inr ⟨running, moved, paired, less⟩
    · exact .inr ⟨running, moved', paired', Binary64.lt_trans less' less⟩

/-- A point that is offered to one that is no zero. -/
theorem descends_offer (running : ¬ best.y.isZero = true) (evaluated : evaluate f x = .ok y) :
    best.Descends f (best.offer x y) := by
  unfold offer
  split
  next less => exact .inr ⟨running, rfl, evaluated, less⟩
  next => exact .inl rfl

theorem Descends.improves (descends : best.Descends f next) : best.Improves f next := by
  rcases descends with rfl | ⟨running, moved, paired, less⟩
  · exact ⟨id, next.y.size_le_refl, fun _ => rfl, fun _ => rfl⟩
  · constructor
    · exact fun _ => paired
    · exact Binary64.le_of_lt less
    · exact fun zero => absurd zero running
    · intro still
      rw [moved] at still
      contradiction

/-- A climb that stops where it is. -/
theorem Improves.stay (stopped : Except.ok best = (.ok next : Except Fault Best)) :
    best.Improves f next :=
  (Descends.stay stopped).improves

theorem Improves.trans {first second third : Best} (head : first.Improves f second)
    (tail : second.Improves f third) : first.Improves f third where
  paired := tail.paired ∘ head.paired
  size_le := Binary64.le_trans tail.size_le head.size_le
  done zero := by
    obtain rfl := head.done zero
    exact tail.done zero
  unmoved still := by
    obtain rfl := tail.unmoved still
    exact head.unmoved still

/-- A tie that is offered to a point that is no zero. -/
theorem improves_offerTie (running : ¬ best.y.isZero = true) (evaluated : evaluate f x = .ok y) :
    best.Improves f (best.offerTie x y) := by
  unfold offerTie
  split
  next fits => exact ⟨fun _ => evaluated, fits, fun zero => absurd zero running, nofun⟩
  next => exact .stay rfl

end Best

theorem climb_descends {best next : Best} {points : List Inexact}
    (climbed : climb f best points = .ok next) : best.Descends f next := by
  induction points generalizing best with
  | nil => exact .stay climbed
  | cons point rest ih =>
    rw [climb] at climbed
    split at climbed
    next => exact .stay climbed
    next running =>
      rcases bind_eq_ok_iff.mp climbed with ⟨y, evaluated, climbed⟩
      exact (Best.descends_offer running evaluated).trans (ih climbed)

theorem creep_descends {reach : Nat} {x y : Inexact} {next : Best}
    (crept : creep f reach x y = .ok next) : (Best.start x y).Descends f next := by
  unfold creep at crept
  split at crept
  next => exact climb_descends crept
  next => exact .stay crept

theorem wander_descends {inPlane : Bool} {attempts : Nat} {best next : Best} {g : Generator}
    (wandered : wander s f inPlane attempts best g = .ok next) : best.Descends f next := by
  induction attempts generalizing best g with
  | zero => exact .stay wandered
  | succ attempts ih =>
    rw [wander] at wandered
    split at wandered
    next => exact .stay wandered
    next running =>
      simp only [bind_eq_ok_iff] at wandered
      rcases wandered with ⟨⟨point, g'⟩, -, y, evaluated, wandered⟩
      exact (Best.descends_offer running evaluated).trans (ih wandered)

theorem snapFrom_improves {best next : Best} {places : List Nat}
    (snapped : snapFrom f best places = .ok next) : best.Improves f next := by
  induction places generalizing best with
  | nil => exact .stay snapped
  | cons digits rest ih =>
    rw [snapFrom] at snapped
    split at snapped
    next => exact .stay snapped
    next running =>
      simp only [bind_eq_ok_iff] at snapped
      rcases snapped with ⟨rounded, -, point, -, y, evaluated, snapped⟩
      exact (Best.improves_offerTie running evaluated).trans (ih snapped)

/-- The secant moves on through points that need not be better, and stops at a
zero.  A best point that is a zero is therefore the last point. -/
theorem secantFrom_descends {fuel : Nat} {x₀ y₀ x₁ y₁ : Inexact} {best next : Best}
    (last : best.y.isZero = true → y₁.isZero = true)
    (moved : secantFrom s f fuel x₀ y₀ x₁ y₁ best = .ok next) : best.Descends f next := by
  induction fuel generalizing x₀ y₀ x₁ y₁ best with
  | zero => exact .stay moved
  | succ fuel ih =>
    rw [secantFrom] at moved
    split at moved
    next => exact .stay moved
    next running =>
      split at moved
      next => exact .stay moved
      next x₂ _ =>
        simp only [bind_eq_ok_iff] at moved
        rcases moved with ⟨y₂, evaluated, square, -, moved⟩
        have offered := Best.descends_offer (mt last running) evaluated
        split at moved
        next =>
          cases moved
          exact offered
        next =>
          refine offered.trans (ih ?_ moved)
          intro zero
          unfold Best.offer at zero
          split at zero
          · exact zero
          · exact absurd (last zero) running

/-! ## Strategies -/

namespace State

variable {state next : State}

/-- A strategy that stops where it is. -/
theorem Descends.stay (stopped : Except.ok state = (.ok next : Except Fault State)) :
    state.Descends f next := by
  cases stopped
  exact .inl rfl

theorem Descends.trans {first second third : State} (head : first.Descends f second)
    (tail : second.Descends f third) : first.Descends f third := by
  rcases head with rfl | ⟨running, paired, less⟩
  · exact tail
  · rcases tail with rfl | ⟨-, paired', less'⟩
    · exact .inr ⟨running, paired, less⟩
    · exact .inr ⟨running, paired', Binary64.lt_trans less' less⟩

theorem Descends.improves (descends : state.Descends f next) : state.Improves f next := by
  rcases descends with rfl | ⟨running, paired, less⟩
  · exact ⟨id, next.y.size_le_refl, fun _ => rfl⟩
  · exact ⟨fun _ => paired, Binary64.le_of_lt less, fun zero => absurd zero running⟩

/-- A strategy that stops where it is. -/
theorem Improves.stay (stopped : Except.ok state = (.ok next : Except Fault State)) :
    state.Improves f next :=
  (Descends.stay stopped).improves

theorem Improves.refl (state : State) : state.Improves f state := .stay rfl

theorem Improves.trans {first second third : State} (head : first.Improves f second)
    (tail : second.Improves f third) : first.Improves f third where
  paired := tail.paired ∘ head.paired
  size_le := Binary64.le_trans tail.size_le head.size_le
  done zero := by
    obtain rfl := head.done zero
    exact tail.done zero

/-- A state that settles on the best point of a climb from it. -/
theorem descends_settle {best : Best} (climbed : (Best.start state.x state.y).Descends f best) :
    state.Descends f (state.settle best) := by
  unfold settle
  rcases climbed with rfl | ⟨running, moved, paired, less⟩
  · exact .inl rfl
  · rw [if_pos moved]
    exact .inr ⟨running, paired, less⟩

theorem improves_settle {best : Best} (climbed : (Best.start state.x state.y).Improves f best) :
    state.Improves f (state.settle best) := by
  unfold settle
  split
  next moved =>
    refine ⟨climbed.paired, climbed.size_le, fun zero => ?_⟩
    rw [climbed.done zero] at moved
    contradiction
  next => exact .refl _

end State

/-- A state that settles on the best point of a climb from it is at that point. -/
theorem settle_eq {state : State} {best : Best}
    (climbed : (Best.start state.x state.y).Improves f best) :
    (state.settle best).x = best.x ∧ (state.settle best).y = best.y := by
  unfold State.settle
  split
  next => exact ⟨rfl, rfl⟩
  next still =>
    rw [climbed.unmoved (by simpa using still)]
    exact ⟨rfl, rfl⟩

theorem randomSearch_descends {attempts : Nat} {state next : State}
    (moved : randomSearch s f attempts state = .ok next) : state.Descends f next := by
  rcases bind_eq_ok_iff.mp moved with ⟨best, wandered, settled⟩
  cases settled
  exact State.descends_settle (wander_descends wandered)

theorem creepSearch_descends {state next : State} (moved : creepSearch f state = .ok next) :
    state.Descends f next := by
  rcases bind_eq_ok_iff.mp moved with ⟨best, crept, settled⟩
  cases settled
  exact State.descends_settle (creep_descends crept)

theorem snap_improves {state next : State} (moved : snap f state = .ok next) :
    state.Improves f next := by
  unfold snap at moved
  split at moved
  next =>
    rcases bind_eq_ok_iff.mp moved with ⟨best, snapped, settled⟩
    cases settled
    exact State.improves_settle (snapFrom_improves snapped)
  next => exact .stay moved

theorem secant_descends {state next : State} (moved : secant s f state = .ok next) :
    state.Descends f next := by
  unfold secant at moved
  split at moved
  next => exact .stay moved
  next =>
    split at moved
    next => exact .stay moved
    next =>
      simp only [bind_eq_ok_iff] at moved
      rcases moved with ⟨value, -, best, iterated, settled⟩
      cases settled
      exact State.descends_settle (secantFrom_descends id iterated)

/-- A candidate of Newton's method comes with its value. -/
theorem newtonCandidate_paired {x delta : Inexact} {candidate : Best}
    (found : newtonCandidate s f x delta = .ok candidate) : candidate.Paired f := by
  rcases bind_eq_ok_iff.mp found with ⟨value, evaluated, chosen⟩
  split at chosen
  next => exact (creep_descends chosen).improves.paired evaluated
  next =>
    cases chosen
    exact evaluated

theorem newtonFrom_descends {fuel : Nat} {scale : Float} {state next : State}
    (moved : newtonFrom s f fuel scale state = .ok next) : state.Descends f next := by
  induction fuel generalizing scale state with
  | zero => exact .stay moved
  | succ fuel ih =>
    rw [newtonFrom] at moved
    split at moved
    next => exact .stay moved
    next running =>
      rcases bind_eq_ok_iff.mp moved with ⟨gradient, -, moved⟩
      split at moved
      next =>
        rcases bind_eq_ok_iff.mp moved with ⟨burst, jumped, moved⟩
        split at moved
        next => exact (randomSearch_descends jumped).trans (ih moved)
        next => exact .stay moved
      next =>
        split at moved
        next => contradiction
        next delta _ =>
          rcases bind_eq_ok_iff.mp moved with ⟨candidate, found, moved⟩
          split at moved
          next less =>
            have step : state.Descends f (state.moveTo candidate.x candidate.y) :=
              .inr ⟨running, newtonCandidate_paired found, less⟩
            exact step.trans (ih moved)
          next =>
            split at moved
            next => exact ih moved
            next => exact .stay moved

theorem newton_descends {state next : State} (moved : newton s f state = .ok next) :
    state.Descends f next :=
  newtonFrom_descends moved

/-- Whatever a nested search ends at, its estimate is only taken with the value of
the function itself there. -/
theorem followNested_improves {solve : Solver} {gradient : Inexact} {state next : State}
    (running : ¬ state.isDone = true)
    (moved : followNested f solve gradient state = .ok next) : state.Improves f next := by
  unfold followNested at moved
  split at moved
  next => exact .stay moved
  next => contradiction
  next =>
    simp only [bind_eq_ok_iff] at moved
    rcases moved with ⟨⟨x, other⟩, -, y, evaluated, moved⟩
    split at moved
    next fits =>
      cases moved
      simp only [Bool.and_eq_true, decide_eq_true_eq] at fits
      exact ⟨fun _ => evaluated, fits.1, fun zero => absurd zero running⟩
    next => exact .stay moved

theorem multiplicity_improves {nested : Option Solver} {state next : State}
    (moved : multiplicity s f nested state = .ok next) : state.Improves f next := by
  unfold multiplicity at moved
  split at moved
  next => exact .stay moved
  next solve =>
    split at moved
    next => exact .stay moved
    next running =>
      rcases bind_eq_ok_iff.mp moved with ⟨square, -, moved⟩
      split at moved
      next => exact .stay moved
      next =>
        simp only [bind_eq_ok_iff] at moved
        rcases moved with ⟨gradient, -, square, -, moved⟩
        split at moved
        next => exact followNested_improves running moved
        next => exact .stay moved

/-- All six strategies improve the state, whichever search they may nest. -/
theorem ensemble_improves {nested : Option Solver} {strategy : Strategy}
    (member : strategy ∈ ensemble s f nested) {state next : State}
    (moved : strategy state = .ok next) : state.Improves f next := by
  simp only [ensemble, List.mem_cons, List.not_mem_nil, or_false] at member
  rcases member with rfl | rfl | rfl | rfl | rfl | rfl
  · exact (newton_descends moved).improves
  · exact (randomSearch_descends moved).improves
  · exact multiplicity_improves moved
  · exact (secant_descends moved).improves
  · exact (creepSearch_descends moved).improves
  · exact snap_improves moved

end Function

end ExactRoots.Search
