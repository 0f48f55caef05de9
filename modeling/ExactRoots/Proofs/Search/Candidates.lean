import ExactRoots.Proofs.Binary64.Neighbors
import ExactRoots.Proofs.Search.Overflow

/-!
# Strategies keep the best point that they see

A run of a strategy evaluates its function at some points.  Which ones is told by the
function itself: the run comes out differently for a function that fails at such a
point.  The strategies that climb end at a point at least as good as the start and every
one that they evaluate, and creeping at the best of the doubles beside the estimate,
though it stops early at a zero.
-/

namespace ExactRoots

open Outcome

/-- Whether each part of a number is at most so many doubles away from that of another one. -/
def Inexact.Beside (reach : Nat) : Inexact → Inexact → Prop
  | .real x, .real y => Binary64.Beside reach x y
  | .complex p q, .complex r s => Binary64.Beside reach p r ∧ Binary64.Beside reach q s
  | _, _ => False

namespace Search

/-! ## Points that a run evaluates -/

/-- A function that fails at one point. -/
def failingAt (f : ScalarFunction) (c : Inexact) : ScalarFunction := fun v =>
  if v = .inexact c then .error .malformed else f v

/-- Whether a run evaluates its function at a point. -/
def Evaluates {α : Type} (run : ScalarFunction → Except Fault α) (f : ScalarFunction)
    (c : Inexact) : Prop :=
  run (failingAt f c) ≠ run f

section Evaluates

variable {α : Type} {f : ScalarFunction} {c d y : Inexact}

theorem evaluate_failingAt_self : evaluate (failingAt f c) c = .error .malformed := by
  simp [evaluate, evaluateAt, failingAt, Fault.isArithmetic]

theorem evaluate_failingAt_of_ne (other : d ≠ c) :
    evaluate (failingAt f c) d = evaluate f d := by
  simp [evaluate, evaluateAt, failingAt, other]

/-- A single evaluation is one at its point alone. -/
theorem evaluates_evaluate_iff (evaluated : evaluate f d = .ok y) :
    Evaluates (fun g => evaluate g d) f c ↔ c = d := by
  constructor
  · intro evaluates
    by_contra other
    exact evaluates (evaluate_failingAt_of_ne (Ne.symm other))
  · rintro rfl
    rw [Evaluates, evaluate_failingAt_self, evaluated]
    exact nofun

/-- A run that does not depend on its function evaluates it nowhere. -/
theorem not_evaluates_const (outcome : Except Fault α) : ¬ Evaluates (fun _ => outcome) f c :=
  fun evaluates => evaluates rfl

/-- A run that begins with an evaluation evaluates there or later on. -/
theorem Evaluates.of_bind {rest : Inexact → ScalarFunction → Except Fault α}
    (evaluates : Evaluates (fun g => evaluate g d >>= fun y => rest y g) f c)
    (evaluated : evaluate f d = .ok y) : c = d ∨ Evaluates (rest y) f c := by
  by_cases same : c = d
  · exact .inl same
  · right
    intro equal
    apply evaluates
    dsimp only
    rw [evaluate_failingAt_of_ne (Ne.symm same), evaluated, ok_bind, ok_bind, equal]

end Evaluates

/-! ## Climbs -/

section Climbs

variable {s : Settings} {f : ScalarFunction} {best next : Best} {c x y : Inexact}

/-- Whether a function has a value at a point, and a value is no larger. -/
def AtMost (f : ScalarFunction) (c y : Inexact) : Prop :=
  ∃ z, evaluate f c = .ok z ∧ y.size ≤ z.size

theorem size_offer_le (best : Best) (x y : Inexact) : (best.offer x y).y.size ≤ y.size := by
  unfold Best.offer
  split
  next => exact y.size_le_refl
  next notLess => exact (Binary64.not_lt y.size_isNaN best.y.size_isNaN).mp notLess

theorem size_offerTie_le (best : Best) (x y : Inexact) : (best.offerTie x y).y.size ≤ y.size := by
  unfold Best.offerTie
  split
  next => exact y.size_le_refl
  next larger =>
    rw [← Binary64.not_lt y.size_isNaN best.y.size_isNaN]
    exact fun less => larger (Binary64.le_of_lt less)

/-- What a climb goes on to from an offered point is no worse than that point. -/
theorem atMost_of_improves {offered : Best} (evaluated : evaluate f x = .ok y)
    (size : offered.y.size ≤ y.size) (improved : offered.Improves f next) : AtMost f x next.y :=
  ⟨y, evaluated, Binary64.le_trans improved.size_le size⟩

/-- A climb ends at the start or at one of the points, and at a value no larger than that at any
of them. -/
theorem climb_best {points : List Inexact} (climbed : climb f best points = .ok next) :
    (next.x = best.x ∨ next.x ∈ points) ∧
      ∀ c ∈ points, ∀ z, evaluate f c = .ok z → next.y.size ≤ z.size := by
  induction points generalizing best with
  | nil =>
    cases climbed
    exact ⟨.inl rfl, nofun⟩
  | cons point rest ih =>
    rw [climb] at climbed
    split at climbed
    next zero =>
      cases climbed
      exact ⟨.inl rfl, fun c _ z _ => Inexact.size_le_size_of_isZero zero z⟩
    next =>
      rcases bind_eq_ok_iff.mp climbed with ⟨y, evaluated, climbed⟩
      rcases ih climbed with ⟨place, least⟩
      constructor
      · rcases place with same | member
        · unfold Best.offer at same
          split at same
          · exact .inr (same ▸ List.mem_cons_self)
          · exact .inl same
        · exact .inr (List.mem_cons_of_mem point member)
      · intro c member z found
        rcases List.mem_cons.mp member with rfl | member
        · rw [evaluated] at found
          cases found
          exact Binary64.le_trans (climb_descends climbed).improves.size_le (size_offer_le best c y)
        · exact least c member z found

/-- A random climb ends no worse than at any candidate. -/
theorem wander_atMost {inPlane : Bool} {attempts : Nat} {g : Generator}
    (wandered : wander s f inPlane attempts best g = .ok next)
    (evaluates : Evaluates (fun h => wander s h inPlane attempts best g) f c) :
    AtMost f c next.y := by
  induction attempts generalizing best g with
  | zero => exact absurd evaluates (not_evaluates_const _)
  | succ attempts ih =>
    by_cases zero : best.y.isZero = true
    · simp only [wander, if_pos zero] at evaluates
      exact absurd evaluates (not_evaluates_const _)
    · rw [wander, if_neg zero] at wandered
      simp only [bind_eq_ok_iff] at wandered
      rcases wandered with ⟨⟨point, g'⟩, perturbed, y, evaluated, wandered⟩
      simp only [wander, if_neg zero, perturbed, ok_bind] at evaluates
      rcases evaluates.of_bind evaluated with rfl | later
      · exact atMost_of_improves evaluated (size_offer_le best c y) (wander_descends wandered).improves
      · exact ih wandered later

/-- Snapping ends no worse than at any rounded estimate. -/
theorem snapFrom_atMost {places : List Nat} (snapped : snapFrom f best places = .ok next)
    (evaluates : Evaluates (fun h => snapFrom h best places) f c) : AtMost f c next.y := by
  induction places generalizing best with
  | nil => exact absurd evaluates (not_evaluates_const _)
  | cons digits rest ih =>
    by_cases zero : best.y.isZero = true
    · simp only [snapFrom, if_pos zero] at evaluates
      exact absurd evaluates (not_evaluates_const _)
    · rw [snapFrom, if_neg zero] at snapped
      simp only [bind_eq_ok_iff] at snapped
      rcases snapped with ⟨rounded, found, point, converted, y, evaluated, snapped⟩
      simp only [snapFrom, if_neg zero, found, converted, ok_bind] at evaluates
      rcases evaluates.of_bind evaluated with rfl | later
      · exact atMost_of_improves evaluated (size_offerTie_le best c y) (snapFrom_improves snapped)
      · exact ih snapped later

/-- The secant method ends no worse than at any iterate, though it goes on from the last one and
not from the best. -/
theorem secantFrom_atMost {fuel : Nat} {x₀ y₀ x₁ y₁ : Inexact}
    (last : best.y.isZero = true → y₁.isZero = true)
    (iterated : secantFrom s f fuel x₀ y₀ x₁ y₁ best = .ok next)
    (evaluates : Evaluates (fun h => secantFrom s h fuel x₀ y₀ x₁ y₁ best) f c) :
    AtMost f c next.y := by
  induction fuel generalizing x₀ y₀ x₁ y₁ best with
  | zero => exact absurd evaluates (not_evaluates_const _)
  | succ fuel ih =>
    by_cases zero : y₁.isZero = true
    · simp only [secantFrom, if_pos zero] at evaluates
      exact absurd evaluates (not_evaluates_const _)
    · rw [secantFrom, if_neg zero] at iterated
      simp only [secantFrom, if_neg zero] at evaluates
      cases point : secantPoint? x₀ y₀ x₁ y₁ with
      | none =>
        simp only [point] at evaluates
        exact absurd evaluates (not_evaluates_const _)
      | some x₂ =>
        simp only [point, bind_eq_ok_iff] at iterated
        simp only [point] at evaluates
        rcases iterated with ⟨y₂, evaluated, square, squared, iterated⟩
        have kept : (best.offer x₂ y₂).y.isZero = true → y₂.isZero = true := by
          unfold Best.offer
          split
          · exact id
          · exact fun vanishes => absurd (last vanishes) zero
        have improved : (best.offer x₂ y₂).Improves f next := by
          split at iterated
          next => exact .stay iterated
          next => exact (secantFrom_descends kept iterated).improves
        rcases evaluates.of_bind evaluated with rfl | later
        · exact atMost_of_improves evaluated (size_offer_le best c y₂) improved
        · simp only [squared, ok_bind] at later
          split at iterated
          next near =>
            simp only [if_pos near] at later
            exact absurd later (not_evaluates_const _)
          next far =>
            simp only [if_neg far] at later
            exact ih kept iterated later

end Climbs

/-! ## The lattice -/

section Lattice

variable {reach : Nat} {x c d : Inexact}

theorem mem_cons_lattice_real {a : Float} : d ∈ Inexact.real a :: lattice reach (.real a) ↔
    ∃ b ∈ Binary64.neighbors a reach, .real b = d := by
  have whole : Inexact.real a :: lattice reach (.real a) =
      (Binary64.neighbors a reach).map .real := rfl
  rw [whole, List.mem_map]

theorem mem_cons_lattice_complex {p q : Float} :
    d ∈ Inexact.complex p q :: lattice reach (.complex p q) ↔
      ∃ a ∈ Binary64.neighbors p reach, ∃ b ∈ Binary64.neighbors q reach, .complex a b = d := by
  have whole : Inexact.complex p q :: lattice reach (.complex p q) =
      (Binary64.neighbors p reach).flatMap fun a =>
        (Binary64.neighbors q reach).map fun b => .complex a b := rfl
  rw [whole, List.mem_flatMap]
  simp only [List.mem_map]

/-- Points of the lattice around a finite estimate are beside it in each part. -/
theorem beside_of_mem_lattice (finite : x.isFinite = true) (member : d ∈ lattice reach x) :
    x.Beside reach d := by
  have numbers := Inexact.isNaN_of_isFinite finite
  replace member := List.mem_cons_of_mem x member
  cases x with
  | real a =>
    rcases mem_cons_lattice_real.mp member with ⟨b, near, rfl⟩
    exact Binary64.beside_of_mem_neighbors numbers.1 near
  | complex p q =>
    rcases mem_cons_lattice_complex.mp member with ⟨a, near, b, near', rfl⟩
    exact ⟨Binary64.beside_of_mem_neighbors numbers.1 near,
      Binary64.beside_of_mem_neighbors numbers.2 near'⟩

/-- Every number beside the estimate is the estimate or a point of the lattice, up to the sign of a
zero. -/
theorem exists_mem_lattice (beside : x.Beside reach c) :
    ∃ d ∈ x :: lattice reach x, d.beq c = true := by
  obtain a | ⟨p, q⟩ := x <;> obtain b | ⟨r, s⟩ := c
  case real.real =>
    rcases Binary64.exists_mem_neighbors beside with ⟨d, member, same⟩
    have zero : ((0.0 : Float) == 0.0) = true := by decide
    exact ⟨.real d, mem_cons_lattice_real.mpr ⟨d, member, rfl⟩, Bool.and_eq_true_iff.mpr ⟨same, zero⟩⟩
  case complex.complex =>
    rcases Binary64.exists_mem_neighbors beside.1 with ⟨a, member, same⟩
    rcases Binary64.exists_mem_neighbors beside.2 with ⟨b, member', same'⟩
    exact ⟨.complex a b, mem_cons_lattice_complex.mpr ⟨a, member, b, member', rfl⟩,
      Bool.and_eq_true_iff.mpr ⟨same, same'⟩⟩
  all_goals exact False.elim beside

end Lattice

/-! ## Strategies -/

/-- The secant method for one function at the guess and another one at the iterates. -/
def secantBetween (s : Settings) (f g : ScalarFunction) (state : State) : Except Fault State := do
  if state.y.size ≤ s.tolerance && state.step.size ≤ s.tolerance then return state
  if state.guess.beq state.x then return state
  let value ← evaluate f state.guess
  return state.settle
    (← secantFrom s g s.iterations state.guess value state.x state.y (.start state.x state.y))

theorem secant_eq_secantBetween (s : Settings) (f : ScalarFunction) (state : State) :
    secant s f state = secantBetween s f f state := rfl

/-- Whether a state is at least as good as another one, and as every point that a run evaluates. -/
structure KeepsBest (f : ScalarFunction) (run : ScalarFunction → Except Fault State)
    (state next : State) : Prop where
  start : next.y.size ≤ state.y.size
  evaluated : ∀ c, Evaluates run f c → AtMost f c next.y

section Strategies

variable {s : Settings} {f : ScalarFunction} {state next : State}

/-- A state that settles on the best point of a climb keeps what the climb keeps. -/
theorem keepsBest_settle {run : ScalarFunction → Except Fault Best} {best : Best}
    (improved : (Best.start state.x state.y).Improves f best)
    (kept : ∀ c, Evaluates run f c → AtMost f c best.y) :
    KeepsBest f (fun g => do return state.settle (← run g)) state (state.settle best) := by
  rcases settle_eq improved with ⟨-, value⟩
  constructor
  · rw [value]
    exact improved.size_le
  · intro c evaluates
    rw [value]
    apply kept c
    intro same
    apply evaluates
    rw [same]

theorem randomSearch_keepsBest {attempts : Nat}
    (moved : randomSearch s f attempts state = .ok next) :
    KeepsBest f (fun g => randomSearch s g attempts state) state next := by
  rcases bind_eq_ok_iff.mp moved with ⟨best, wandered, settled⟩
  cases settled
  exact keepsBest_settle (wander_descends wandered).improves fun c => wander_atMost wandered

theorem snap_keepsBest (moved : snap f state = .ok next) :
    KeepsBest f (fun g => snap g state) state next := by
  unfold snap at moved ⊢
  split at moved
  next finite =>
    simp only [if_pos finite]
    rcases bind_eq_ok_iff.mp moved with ⟨best, snapped, settled⟩
    cases settled
    exact keepsBest_settle (snapFrom_improves snapped) fun c => snapFrom_atMost snapped
  next infinite =>
    cases moved
    simp only [if_neg infinite]
    exact ⟨state.y.size_le_refl, fun c evaluates => absurd evaluates (not_evaluates_const _)⟩

theorem secant_keepsBest (moved : secant s f state = .ok next) :
    KeepsBest f (fun g => secantBetween s f g state) state next := by
  have stay (run : ScalarFunction → Except Fault State) (still : ∀ g, run g = .ok state) :
      KeepsBest f run state state :=
    ⟨state.y.size_le_refl, fun c evaluates => absurd ((still _).trans (still _).symm) evaluates⟩
  unfold secant at moved
  unfold secantBetween
  split at moved
  next settled =>
    cases moved
    exact stay _ fun g => by rw [if_pos settled]; rfl
  next unsettled =>
    split at moved
    next same =>
      cases moved
      exact stay _ fun g => by rw [if_neg unsettled, if_pos same]; rfl
    next other =>
      simp only [bind_eq_ok_iff] at moved
      rcases moved with ⟨value, evaluated, best, iterated, settled⟩
      cases settled
      simp only [if_neg unsettled, if_neg other, evaluated, ok_bind]
      exact keepsBest_settle (secantFrom_descends id iterated).improves fun c =>
        secantFrom_atMost id iterated

/-- Creeping from a finite estimate ends at it or on the lattice around it, at a value that is no
larger than at any point of the lattice. -/
theorem creepSearch_best (finite : state.x.isFinite = true)
    (moved : creepSearch f state = .ok next) :
    (next.x = state.x ∨ next.x ∈ lattice creepReach state.x) ∧
      ∀ c ∈ lattice creepReach state.x, ∀ z, evaluate f c = .ok z → next.y.size ≤ z.size := by
  rcases bind_eq_ok_iff.mp moved with ⟨best, crept, settled⟩
  cases settled
  rcases settle_eq (creep_descends crept).improves with ⟨place, value⟩
  rw [creep, if_pos finite] at crept
  rw [place, value]
  exact climb_best crept

/-- No strategy that climbs discards a better point than the one it returns.  Creeping from a
finite estimate ends at a point of the lattice of doubles beside it, with the value there, which
is no larger than at any point of the lattice.  Random search, snapping and the secant method end
at a point that is no worse than the start and than every candidate or iterate at which they
evaluate the function.  They fail only where the function does, or where the settings overflow. -/
theorem strategies_keep_best (s : Settings) (f : ScalarFunction) (state : State)
    (paired : evaluate f state.x = .ok state.y) :
    (state.x.isFinite = true →
      Ends (fun fault => ∃ c ∈ lattice creepReach state.x, evaluate f c = .error fault)
        (fun next => evaluate f next.x = .ok next.y ∧ next.y.size ≤ state.y.size ∧
          (next.x = state.x ∨
            next.x ∈ lattice creepReach state.x ∧ state.x.Beside creepReach next.x) ∧
          ∀ c ∈ lattice creepReach state.x, ∀ z, evaluate f c = .ok z → next.y.size ≤ z.size)
        (creepSearch f state)) ∧
    (∀ attempts, Ends (fun fault => (∃ c, evaluate f c = .error fault) ∨ OverflowOf s fault)
      (KeepsBest f (fun g => randomSearch s g attempts state) state)
      (randomSearch s f attempts state)) ∧
    Ends (fun fault => ∃ c, evaluate f c = .error fault)
      (KeepsBest f (fun g => snap g state) state) (snap f state) ∧
    Ends (fun fault => (∃ c, evaluate f c = .error fault) ∨ OverflowOf s fault)
      (KeepsBest f (fun g => secantBetween s f g state) state) (secant s f state) := by
  have confines : Confines s (fun fault => (∃ c, evaluate f c = .error fault) ∨ OverflowOf s fault)
      Everywhere f := by
    apply confines_everywhere
    · exact fun x fault failed => .inl ⟨x, failed⟩
    · exact (overflowOf_squaredTolerance s).mono fun _ => .inr
    · exact fun inPlane x g => (overflowOf_perturb s inPlane x g).mono fun _ => .inr
  have start := state.within_everywhere
  refine ⟨fun finite => ⟨?_, ?_⟩, fun attempts => ⟨?_, ?_⟩, ⟨?_, ?_⟩, ⟨?_, ?_⟩⟩
  · have evaluates : ∀ c ∈ lattice creepReach state.x,
        Ends (fun fault => ∃ c ∈ lattice creepReach state.x, evaluate f c = .error fault) Everywhere
          (evaluate f c) :=
      fun c member => ends_everywhere fun fault failed => ⟨c, member, failed⟩
    have crept := (ends_creep closed_everywhere evaluates start.x start.y).1
    simp [creepSearch, crept]
  · intro next moved
    have improved := (creepSearch_descends moved).improves
    rcases creepSearch_best finite moved with ⟨place, least⟩
    exact ⟨improved.paired paired, improved.size_le,
      place.imp_right fun member => ⟨member, beside_of_mem_lattice finite member⟩, least⟩
  · exact (ends_randomSearch confines attempts start).1
  · exact fun next => randomSearch_keepsBest
  · have evaluates : ∀ x, Everywhere x →
        Ends (fun fault => ∃ c, evaluate f c = .error fault) Everywhere (evaluate f x) :=
      fun x _ => ends_everywhere fun fault failed => ⟨x, failed⟩
    have snapped := (ends_snapFrom closed_everywhere evaluates start.start snapPlaces).1
    simp [snap, snapped]
  · exact fun next => snap_keepsBest
  · exact (ends_secant confines start).1
  · exact fun next => secant_keepsBest

/-- Beside three halves, creeping for the root of two finds the best of four doubles. -/
theorem strategies_keep_best_square :
    let f := Coefficients.horner [.int 1, .int 0, .int (-2)]
    let state : State :=
      { x := .real 1.5, y := .real 0.25, step := .real 0.5, guess := .real 1.0, depth := 0 }
    evaluate f state.x = .ok state.y ∧ state.x.isFinite = true ∧
      ∃ next, creepSearch f state = .ok next ∧
        ∀ c ∈ lattice creepReach state.x, ∀ z, evaluate f c = .ok z → next.y.size ≤ z.size := by
  intro f state
  have paired : evaluate f state.x = .ok state.y := by decide
  have finite : state.x.isFinite = true := by decide
  have numeric : Numeric f := numeric_horner (by simp)
  refine ⟨paired, finite, ?_⟩
  rcases ((strategies_keep_best {} f state paired).1 finite).cases with
    ⟨next, moved, -, -, -, least⟩ | ⟨fault, -, c, -, failed⟩
  · exact ⟨next, moved, least⟩
  · rcases exists_evaluate numeric c with ⟨z, evaluated⟩
    rw [evaluated] at failed
    contradiction

end Strategies

end Search

end ExactRoots
