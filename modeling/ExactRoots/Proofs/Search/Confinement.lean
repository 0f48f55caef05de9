import ExactRoots.Proofs.Value.Faults
import ExactRoots.Proofs.Value.Rounding
import ExactRoots.Search.Solve

/-!
# Searches stay among some points

A search goes from point to point by arithmetic, by drawing random numbers and by the
values of its function.  When none of these leaves some set of points, no strategy does, and
neither does the whole search or one that is nested in it.  The faults of a search are
accounted for on the way: what covers the faults of those computations covers those of all
strategies, and for a class of functions that contains the reduced ones, those of whole
searches, but for the stall of a search whose budget runs out.  That a nested search
stalled is never seen outside it, unless the report of the stall cannot be written.
-/

namespace ExactRoots.Search

open Outcome

/-- Whether the arithmetic of a search does not leave some set of points. -/
structure Closed (R : Inexact → Prop) : Prop where
  real : ∀ x : Float, R (.real x)
  add : ∀ {x y : Inexact}, R x → R y → R (x.add y)
  sub : ∀ {x y : Inexact}, R x → R y → R (x.sub y)
  mul : ∀ {x y : Inexact}, R x → R y → R (x.mul y)
  div? : ∀ {x y quotient : Inexact}, R x → R y → x.div? y = some quotient → R quotient
  lattice : ∀ {reach : Nat} {x c : Inexact}, R x → c ∈ lattice reach x → R c
  toInexact : ∀ {x y : Inexact}, R x → (Value.inexact x).toInexact = .ok y → R y
  simplest : ∀ {x y : Inexact}, R x → (Value.inexact x).simplest.toInexact = .ok y → R y
  round : ∀ {places : Nat} {x y : Inexact} {v : Value}, R x →
    Value.round places (.inexact x) = .ok v → v.toInexact = .ok y → R y

/-- Whether the computations of a search for a zero of a function do not leave some set of points,
and end in no faults but some. -/
structure Confines (s : Settings) (P : Fault → Prop) (R : Inexact → Prop) (f : ScalarFunction) :
    Prop where
  closed : Closed R
  evaluate : ∀ x, R x → Ends P R (evaluate f x)
  squaredTolerance : FaultsIn P (squaredTolerance s)
  perturb : ∀ start x g, R start → R x →
    Ends P (fun drawn => R drawn.1) (perturb s (!start.isReal) x g)

/-- Whether a point and its value belong to a set of points. -/
structure Best.Within (R : Inexact → Prop) (best : Best) : Prop where
  x : R best.x
  y : R best.y

/-- Whether the points of a state and its value belong to a set of points. -/
structure State.Within (R : Inexact → Prop) (state : State) : Prop where
  x : R state.x
  y : R state.y
  guess : R state.guess

/-- Whether a fault satisfies a predicate or is a stall at a point of a set. -/
def OrStallsWithin (P : Fault → Prop) (R : Inexact → Prop) (fault : Fault) : Prop :=
  P fault ∨ ∃ stall, fault = .notConverged stall ∧ R stall.x ∧ R stall.y

section Points

variable {s : Settings} {P : Fault → Prop} {R : Inexact → Prop} {f : ScalarFunction}

theorem Best.Within.offer {best : Best} {x y : Inexact} (within : best.Within R) (point : R x)
    (value : R y) : (best.offer x y).Within R := by
  unfold Best.offer
  split
  · exact ⟨point, value⟩
  · exact within

theorem Best.Within.offerTie {best : Best} {x y : Inexact} (within : best.Within R) (point : R x)
    (value : R y) : (best.offerTie x y).Within R := by
  unfold Best.offerTie
  split
  · exact ⟨point, value⟩
  · exact within

theorem State.Within.start {state : State} (within : state.Within R) :
    (Best.start state.x state.y).Within R :=
  ⟨within.x, within.y⟩

theorem State.Within.moveTo {state : State} {x y : Inexact} (within : state.Within R) (point : R x)
    (value : R y) : (state.moveTo x y).Within R :=
  ⟨point, value, within.guess⟩

theorem State.Within.settle {state : State} {best : Best} (within : state.Within R)
    (better : best.Within R) : (state.settle best).Within R := by
  unfold State.settle
  split
  · exact within.moveTo better.x better.y
  · exact within

/-! ## Single computations -/

/-- A difference is never divided by zero. -/
theorem ends_slope (closed : Closed R) (evaluates : ∀ x, R x → Ends P R (evaluate f x))
    (scale : Float) {x : Inexact} (point : R x) : Ends P R (slope f scale x) := by
  have nonzero : ∀ delta : Inexact,
      ((if delta.isZero then .real Binary64.epsilon else delta).mul (.real 2.0)).isZero = false := by
    intro delta
    rw [Bool.eq_false_iff]
    intro doubled
    have zero := Inexact.isZero_of_mul_two doubled
    split at zero
    next => exact absurd zero (by decide)
    next running => exact running zero
  have width : R (if (x.mul (.real scale)).isZero then .real Binary64.epsilon
      else x.mul (.real scale)) := by
    split
    · exact closed.real _
    · exact closed.mul point (closed.real _)
  apply (evaluates _ (closed.add point width)).andThen
  intro above value
  apply (evaluates _ (closed.sub point width)).andThen
  intro below value'
  rcases Inexact.exists_div?_of_isZero (above.sub below) (nonzero (x.mul (.real scale))) with
    ⟨quotient, divided⟩
  rw [divided]
  exact ends_ok.mpr
    (closed.div? (closed.sub value value') (closed.mul width (closed.real _)) divided)

/-- A climb only raises what the function raises at the points on offer. -/
theorem ends_climb {points : List Inexact} (among : ∀ c ∈ points, R c)
    (evaluates : ∀ c ∈ points, Ends P R (evaluate f c)) {best : Best} (within : best.Within R) :
    Ends P (Best.Within R) (climb f best points) := by
  induction points generalizing best with
  | nil => exact ends_ok.mpr within
  | cons point rest ih =>
    rw [List.forall_mem_cons] at among evaluates
    rw [climb]
    split
    · exact ends_ok.mpr within
    · apply evaluates.1.andThen
      intro y value
      exact ih among.2 evaluates.2 (within.offer among.1 value)

theorem ends_creep (closed : Closed R) {reach : Nat} {x y : Inexact}
    (evaluates : ∀ c ∈ lattice reach x, Ends P R (evaluate f c)) (point : R x) (value : R y) :
    Ends P (Best.Within R) (creep f reach x y) := by
  unfold creep
  split
  · exact ends_climb (fun c member => closed.lattice point member) evaluates ⟨point, value⟩
  · exact ends_ok.mpr ⟨point, value⟩

/-- Rounding never fails, so that snapping only raises what the function does. -/
theorem ends_snapFrom (closed : Closed R) (evaluates : ∀ x, R x → Ends P R (evaluate f x))
    {best : Best} (within : best.Within R) (places : List Nat) :
    Ends P (Best.Within R) (snapFrom f best places) := by
  induction places generalizing best with
  | nil => exact ends_ok.mpr within
  | cons digits rest ih =>
    rcases Value.exists_toInexact_round (Int.natCast_nonneg digits) best.x with
      ⟨v, x, rounded, converted, -⟩
    have point := closed.round within.x rounded converted
    rw [snapFrom, rounded, ok_bind, converted, ok_bind]
    split
    · exact ends_ok.mpr within
    · apply (evaluates x point).andThen
      intro y value
      exact ih (within.offerTie point value)

end Points

/-! ## Strategies -/

section Strategies

variable {s : Settings} {P : Fault → Prop} {R : Inexact → Prop} {f : ScalarFunction}
  (confines : Confines s P R f)

include confines

theorem ends_wander {start : Inexact} (origin : R start) (attempts : Nat) {best : Best}
    (within : best.Within R) (g : Generator) :
    Ends P (Best.Within R) (wander s f (!start.isReal) attempts best g) := by
  induction attempts generalizing best g with
  | zero => exact ends_ok.mpr within
  | succ attempts ih =>
    rw [wander]
    split
    · exact ends_ok.mpr within
    · apply (confines.perturb start best.x g origin within.x).andThen
      rintro ⟨x, g'⟩ point
      apply (confines.evaluate x point).andThen
      intro y value
      exact ih (within.offer point value) g'

theorem ends_randomSearch (attempts : Nat) {state : State} (within : state.Within R) :
    Ends P (State.Within R) (randomSearch s f attempts state) := by
  apply (ends_wander confines within.x attempts within.start _).andThen
  intro best better
  exact ends_ok.mpr (within.settle better)

theorem ends_creepSearch {state : State} (within : state.Within R) :
    Ends P (State.Within R) (creepSearch f state) := by
  have evaluates : ∀ c ∈ lattice creepReach state.x, Ends P R (evaluate f c) :=
    fun c member => confines.evaluate c (confines.closed.lattice within.x member)
  apply (ends_creep confines.closed evaluates within.x within.y).andThen
  intro best better
  exact ends_ok.mpr (within.settle better)

theorem ends_snap {state : State} (within : state.Within R) :
    Ends P (State.Within R) (snap f state) := by
  unfold snap
  split
  · apply (ends_snapFrom confines.closed confines.evaluate within.start _).andThen
    intro best better
    exact ends_ok.mpr (within.settle better)
  · exact ends_ok.mpr within

theorem ends_newtonCandidate {x delta : Inexact} (point : R x) (move : R delta) :
    Ends P (Best.Within R) (newtonCandidate s f x delta) := by
  have candidate := confines.closed.sub point move
  apply (confines.evaluate _ candidate).andThen
  intro y value
  split
  · exact ends_creep confines.closed
      (fun c member => confines.evaluate c (confines.closed.lattice candidate member)) candidate value
  · exact ends_ok.mpr ⟨candidate, value⟩

/-- The step of Newton's method is never divided by zero, since a slope of zero leads to a
random burst. -/
theorem ends_newtonFrom (fuel : Nat) (scale : Float) {state : State} (within : state.Within R) :
    Ends P (State.Within R) (newtonFrom s f fuel scale state) := by
  induction fuel generalizing scale state with
  | zero => exact ends_ok.mpr within
  | succ fuel ih =>
    rw [newtonFrom]
    split
    next => exact ends_ok.mpr within
    next =>
      apply (ends_slope confines.closed confines.evaluate scale within.x).andThen
      intro gradient sloped
      split
      next =>
        apply (ends_randomSearch confines burstLength within).andThen
        intro burst jumped
        split
        · exact ih scale jumped
        · exact ends_ok.mpr within
      next steep =>
        rw [Bool.or_eq_true, not_or, Bool.not_eq_true] at steep
        rcases Inexact.exists_div?_of_isZero state.y steep.1 with ⟨delta, divided⟩
        rw [divided]
        have move := confines.closed.div? within.y sloped divided
        apply (ends_newtonCandidate confines within.x move).andThen
        intro candidate found
        split
        · exact ih scale (within.moveTo found.x found.y)
        · split
          · exact ih _ within
          · exact ends_ok.mpr within

theorem ends_secantFrom (fuel : Nat) {x₀ y₀ x₁ y₁ : Inexact} {best : Best} (first : R x₀)
    (firstValue : R y₀) (second : R x₁) (secondValue : R y₁) (within : best.Within R) :
    Ends P (Best.Within R) (secantFrom s f fuel x₀ y₀ x₁ y₁ best) := by
  have closed := confines.closed
  induction fuel generalizing x₀ y₀ x₁ y₁ best with
  | zero => exact ends_ok.mpr within
  | succ fuel ih =>
    rw [secantFrom]
    split
    next => exact ends_ok.mpr within
    next =>
      split
      next => exact ends_ok.mpr within
      next x₂ found =>
        have point : R x₂ := by
          unfold secantPoint? at found
          dsimp only at found
          split at found
          next => contradiction
          next =>
            split at found
            next => contradiction
            next move divided =>
              split at found
              next =>
                cases found
                exact closed.sub second (closed.div?
                  (closed.mul secondValue (closed.sub second first))
                  (closed.sub secondValue firstValue) divided)
              next => contradiction
        apply (confines.evaluate x₂ point).andThen
        intro y₂ value
        apply Ends.bind confines.squaredTolerance
        intro square _
        split
        · exact ends_ok.mpr (within.offer point value)
        · exact ih second secondValue point value (within.offer point value)

theorem ends_secant {state : State} (within : state.Within R) :
    Ends P (State.Within R) (secant s f state) := by
  unfold secant
  split
  next => exact ends_ok.mpr within
  next =>
    split
    next => exact ends_ok.mpr within
    next =>
      apply (confines.evaluate _ within.guess).andThen
      intro value evaluated
      apply (ends_secantFrom confines s.iterations within.guess evaluated within.x within.y
        within.start).andThen
      intro best better
      exact ends_ok.mpr (within.settle better)

/-- A nested search that stalls is not followed, and its other faults are those of
the reduced function. -/
theorem ends_followNested {solve : Solver} {gradient : Inexact}
    (honest : ∀ x, R x →
      Ends (OrStallsWithin P R) (State.Within R) (solve (reducedFor f gradient) x))
    {state : State} (within : state.Within R) :
    Ends P (State.Within R) (followNested f solve gradient state) := by
  unfold followNested
  split
  next => exact ends_ok.mpr within
  next fault stalled failed =>
    rcases (honest state.x within.x).1 fault failed with raised | ⟨stall, rfl, -⟩
    · exact ends_error.mpr raised
    · exact absurd rfl (stalled stall)
  next final solved =>
    have inner := (honest state.x within.x).2 final solved
    rcases Value.exists_toInexact (Value.hasDouble_simplest final.x) with ⟨x, converted⟩
    have point := confines.closed.simplest inner.x converted
    rw [nestedEstimate, converted, ok_bind]
    apply (confines.evaluate x point).andThen
    intro y value
    split
    · exact ends_ok.mpr (within.moveTo point value)
    · exact ends_ok.mpr within

theorem ends_multiplicity {nested : Option Solver}
    (honest : ∀ solve ∈ nested, ∀ gradient x, R x →
      Ends (OrStallsWithin P R) (State.Within R) (solve (reducedFor f gradient) x))
    {state : State} (within : state.Within R) :
    Ends P (State.Within R) (multiplicity s f nested state) := by
  cases nested with
  | none => exact ends_ok.mpr within
  | some solve =>
    rw [multiplicity]
    split
    next => exact ends_ok.mpr within
    next =>
      apply Ends.bind confines.squaredTolerance
      intro square _
      split
      next => exact ends_ok.mpr within
      next =>
        apply (ends_slope confines.closed confines.evaluate _ within.x).andThen
        intro gradient _
        apply Ends.bind confines.squaredTolerance
        intro square _
        split
        · exact ends_followNested confines (honest solve rfl gradient) within
        · exact ends_ok.mpr within

/-- No strategy leaves the points of the search. -/
theorem ends_ensemble {nested : Option Solver}
    (honest : ∀ solve ∈ nested, ∀ gradient x, R x →
      Ends (OrStallsWithin P R) (State.Within R) (solve (reducedFor f gradient) x))
    {strategy : Strategy} (member : strategy ∈ ensemble s f nested) {state : State}
    (within : state.Within R) : Ends P (State.Within R) (strategy state) := by
  simp only [ensemble, List.mem_cons, List.not_mem_nil, or_false] at member
  rcases member with rfl | rfl | rfl | rfl | rfl | rfl
  · exact ends_newtonFrom confines _ _ within
  · exact ends_randomSearch confines _ within
  · exact ends_multiplicity confines honest within
  · exact ends_secant confines within
  · exact ends_creepSearch confines within
  · exact ends_snap confines within

end Strategies

/-! ## Whole searches -/

section Rounds

variable {s : Settings} {P : Fault → Prop} {R : Inexact → Prop} {strategies : List Strategy}
  (each : ∀ strategy ∈ strategies, ∀ state : State, state.Within R →
    Ends P (State.Within R) (strategy state))

include each

theorem ends_runAll {state : State} (within : state.Within R) :
    Ends P (State.Within R) (runAll strategies state) := by
  induction strategies generalizing state with
  | nil => exact ends_ok.mpr within
  | cons strategy rest ih =>
    rw [List.forall_mem_cons] at each
    apply (each.1 state within).andThen
    intro next moved
    split
    · exact ends_ok.mpr moved
    · exact ih each.2 moved

theorem ends_rounds (squared : FaultsIn P (squaredTolerance s)) (loops : Nat) {state : State}
    (within : state.Within R) (displacement : Float) :
    Ends P (fun final => final.1.Within R) (rounds s strategies loops state displacement) := by
  induction loops generalizing state displacement with
  | zero => exact ends_ok.mpr within
  | succ loops ih =>
    rw [rounds]
    split
    next => exact ends_ok.mpr within
    next =>
      apply (ends_runAll each within).andThen
      intro next moved
      split
      next => exact ends_ok.mpr moved
      next =>
        have rests : ∀ state displacement, FaultsIn P (atRest s state displacement) := by
          simp [atRest, squared]
        apply Ends.bind (rests _ _)
        intro rests _
        split
        · exact ends_ok.mpr moved
        · exact ih moved _

end Rounds

/-- The report of a stall tells the state that it was made of. -/
theorem stallAt_eq_ok_iff {s : Settings} {state : State} {displacement : Float} {stall : Stall} :
    stallAt s state displacement = .ok stall ↔
      ∃ loops iterations, writeInt s.loops = .ok loops ∧ writeInt s.iterations = .ok iterations ∧
        stall = ⟨s.tolerance, loops, iterations, state.x, state.y, displacement⟩ := by
  simp only [stallAt, bind_eq_ok_iff, pure_eq_ok, Except.ok.injEq]
  constructor
  · rintro ⟨loops, written, iterations, written', rfl⟩
    exact ⟨loops, iterations, written, written', rfl⟩
  · rintro ⟨loops, iterations, written, written', rfl⟩
    exact ⟨loops, written, iterations, written', rfl⟩

/-- Whether reporting a stall ends in no faults but some. -/
def Reports (s : Settings) (P : Fault → Prop) : Prop :=
  ∀ state displacement, FaultsIn P (stallAt s state displacement)

/-- Whether the searches of a solver, for the functions of a class and from some points, stay
among these points. -/
def Solver.StaysWithin (F : ScalarFunction → Prop) (P : Fault → Prop) (R : Inexact → Prop)
    (solve : Solver) : Prop :=
  ∀ f, F f → ∀ x, R x → Ends (OrStallsWithin P R) (State.Within R) (solve f x)

section Nested

variable {s : Settings} {F : ScalarFunction → Prop} {P : Fault → Prop} {R : Inexact → Prop}
  (reports : Reports s P) (confines : ∀ f, F f → Confines s P R f)
  (inherits : ∀ f, F f → ∀ gradient, F (reducedFor f gradient))

include reports confines inherits

/-- A search stays among its points, if its nested searches do. -/
theorem staysWithin_solveWith {nested : Option Solver}
    (honest : ∀ solve ∈ nested, Solver.StaysWithin F P R solve) (depth : Int) :
    Solver.StaysWithin F P R (solveWith s nested depth) := by
  intro f member x point
  have each : ∀ strategy ∈ ensemble s f nested, ∀ state : State, state.Within R →
      Ends P (State.Within R) (strategy state) :=
    fun strategy listed state within =>
      ends_ensemble (confines f member)
        (fun solve given gradient => honest solve given _ (inherits f member gradient))
        listed within
  have started : Ends P (State.Within R) (initial s f depth x) := by
    apply ((confines f member).evaluate x point).andThen
    intro y value
    exact ends_ok.mpr ⟨point, value, point⟩
  apply (started.weaken fun fault => .inl).andThen
  intro state within
  have ran := ends_rounds each (confines f member).squaredTolerance s.loops within 0.0
  apply (ran.weaken fun fault => .inl).andThen
  rintro ⟨final, displacement⟩ reached
  dsimp only
  split
  · exact ends_ok.mpr reached
  · apply Ends.bind ((reports final displacement).mono fun fault => .inl)
    intro stall told
    rcases stallAt_eq_ok_iff.mp told with ⟨loops, iterations, -, -, rfl⟩
    exact ends_error.mpr (.inr ⟨_, rfl, reached.x, reached.y⟩)

theorem staysWithin_nestedAt (closed : Closed R) (levels : Nat) (depth : Int) :
    ∀ solve ∈ nestedAt s depth levels, Solver.StaysWithin F P R solve := by
  induction levels generalizing depth with
  | zero => simp [nestedAt]
  | succ levels ih =>
    rintro solve ⟨⟩ f member x point
    have converted := Value.toInexact_inexact x
    beta_reduce
    rw [converted, ok_bind]
    exact staysWithin_solveWith reports confines inherits (ih (depth + 1)) (depth + 1) f member _
      (closed.toInexact point converted)

theorem staysWithin_nested (closed : Closed R) (depth : Int) :
    ∀ solve ∈ nested s depth, Solver.StaysWithin F P R solve :=
  staysWithin_nestedAt reports confines inherits closed _ depth

theorem staysWithin_solve (closed : Closed R) (depth : Int) :
    Solver.StaysWithin F P R (solve s depth) :=
  staysWithin_solveWith reports confines inherits
    (staysWithin_nested reports confines inherits closed depth) depth

/-- The strategies of a search, with the searches that it may nest, do not leave its points. -/
theorem staysWithin_strategies {f : ScalarFunction} (member : F f) (depth : Int)
    {strategy : Strategy} (listed : strategy ∈ ensemble s f (nested s depth)) {state : State}
    (within : state.Within R) : Ends P (State.Within R) (strategy state) := by
  have confined := confines f member
  apply ends_ensemble confined _ listed within
  intro solve given gradient
  exact staysWithin_nested reports confines inherits confined.closed depth solve given _
    (inherits f member gradient)

end Nested

end ExactRoots.Search
