import ExactRoots.Proofs.Search.Confinement

/-!
# Faults of a search

A search raises what its function raises, the faults of operations on values, and the stall
of a search whose budget runs out.  Its points are not restricted for that.
-/

namespace ExactRoots.Search

open Outcome

/-- Whether a fault is a stall or satisfies a predicate. -/
def OrStalls (P : Fault → Prop) (fault : Fault) : Prop :=
  P fault ∨ ∃ stall, fault = .notConverged stall

/-! ## Searches among all points -/

/-- The set of all points. -/
def Everywhere (_ : Inexact) : Prop := True

theorem closed_everywhere : Closed Everywhere where
  real _ := trivial
  add _ _ := trivial
  sub _ _ := trivial
  mul _ _ := trivial
  div? _ _ _ := trivial
  lattice _ _ := trivial
  toInexact _ _ := trivial
  simplest _ _ := trivial
  round _ _ _ := trivial

theorem State.within_everywhere (state : State) : state.Within Everywhere :=
  ⟨trivial, trivial, trivial⟩

section Everywhere

variable {s : Settings} {P : Fault → Prop} {f : ScalarFunction}

theorem ends_everywhere {outcome : Except Fault Inexact} (faults : FaultsIn P outcome) :
    Ends P Everywhere outcome :=
  ⟨faults, fun _ _ => trivial⟩

/-- All points with any predicate that allows the faults of everything that a search computes
with. -/
theorem confines_everywhere (evaluates : ∀ x, FaultsIn P (evaluate f x))
    (squared : FaultsIn P (squaredTolerance s))
    (perturbs : ∀ inPlane x g, FaultsIn P (perturb s inPlane x g)) :
    Confines s P Everywhere f where
  closed := closed_everywhere
  evaluate x _ := ends_everywhere (evaluates x)
  squaredTolerance := squared
  perturb _ x g _ _ := ⟨perturbs _ x g, fun _ _ => trivial⟩

theorem OrStallsWithin.orStalls {R : Inexact → Prop} {fault : Fault}
    (ends : OrStallsWithin P R fault) : OrStalls P fault :=
  ends.imp_right fun ⟨stall, same, _⟩ => ⟨stall, same⟩

end Everywhere

/-! ## Faults of the function and of operations -/

/-- Whether a fault is one of the function's own or comes from an operation on
values. -/
def Raises (f : ScalarFunction) (fault : Fault) : Prop :=
  fault.IsOperational ∨ ∃ v, f v = .error fault

theorem raises_of_operational {α : Type} {f : ScalarFunction} {outcome : Except Fault α}
    (operational : Operational outcome) : FaultsIn (Raises f) outcome :=
  operational.mono fun _ => .inl

section Function

variable {f : ScalarFunction}

@[simp]
theorem raises_apply (v : Value) : FaultsIn (Raises f) (f v) :=
  fun _ failed => .inr ⟨v, failed⟩

@[simp]
theorem raises_evaluate (x : Inexact) : FaultsIn (Raises f) (evaluate f x) := by
  have computed : FaultsIn (Raises f) (f (.inexact x) >>= Value.toInexact) := by
    simp [raises_of_operational]
  unfold evaluate evaluateAt
  split
  next => simp
  next fault failed => simpa using fun _ => computed fault failed

theorem raises_difference (scale : Float) (v : Value) :
    FaultsIn (Raises f) (difference f scale v) := by
  simp [difference, raises_of_operational]

/-- The faults of a function that only raises what another one does are faults of
the other one. -/
theorem Raises.trans {g : ScalarFunction} (inner : ∀ v, FaultsIn (Raises f) (g v)) {fault : Fault}
    (raised : Raises g fault) : Raises f fault := by
  rcases raised with operational | ⟨v, failed⟩
  · exact .inl operational
  · exact inner v fault failed

theorem raises_derivative (scale : Float) (n : Nat) (v : Value) :
    FaultsIn (Raises f) (derivative f scale n v) := by
  induction n generalizing v with
  | zero => exact raises_difference scale v
  | succ n ih => exact (raises_difference scale v).mono fun _ => Raises.trans ih

theorem raises_reduced {numerator denominator : ScalarFunction}
    (top : ∀ v, FaultsIn (Raises f) (numerator v))
    (bottom : ∀ v, FaultsIn (Raises f) (denominator v)) (v : Value) :
    FaultsIn (Raises f) (reduced numerator denominator v) := by
  simp [reduced, top, bottom, raises_of_operational]

theorem raises_reducedFor (gradient : Inexact) (v : Value) :
    FaultsIn (Raises f) (reducedFor f gradient v) := by
  unfold reducedFor
  split
  next => exact raises_reduced (raises_derivative _ 0) (raises_derivative _ 1) v
  next => exact raises_reduced raises_apply (raises_derivative _ 0) v

end Function

theorem operational_uniform (low high : Float) (g : Generator) :
    Operational (g.uniform low high) := by
  simp [Generator.uniform]

section Searches

variable {s : Settings} {f : ScalarFunction}

theorem confines_raises {g : ScalarFunction} (inner : ∀ v, FaultsIn (Raises f) (g v)) :
    Confines s (Raises f) Everywhere g := by
  apply confines_everywhere
  · exact fun x => (raises_evaluate x).mono fun _ => Raises.trans inner
  · exact raises_of_operational (by simp [squaredTolerance])
  · exact fun inPlane x g => raises_of_operational (by
      simp [perturb, randomFactor, windowSample, operational_uniform])

/-- A function that is reduced from another one only raises what that one does. -/
theorem raises_reducedFor_of {g : ScalarFunction} (inner : ∀ v, FaultsIn (Raises f) (g v))
    (gradient : Inexact) (v : Value) : FaultsIn (Raises f) (reducedFor g gradient v) :=
  (raises_reducedFor gradient v).mono fun _ => Raises.trans inner

theorem reports_raises : Reports s (Raises f) :=
  fun _ _ => raises_of_operational (by simp [stallAt])

/-- A search raises what its function raises, and the faults of operations on values, or
stalls. -/
theorem raises_solve (depth : Int) (x : Inexact) :
    FaultsIn (OrStalls (Raises f)) (solve s depth f x) :=
  (staysWithin_solve reports_raises (fun _ => confines_raises) (fun _ => raises_reducedFor_of)
    closed_everywhere depth f raises_apply x trivial).1.mono fun _ => OrStallsWithin.orStalls

/-- The strategies of a search raise nothing but what it raises. -/
theorem raises_strategies {depth : Int} {strategy : Strategy}
    (listed : strategy ∈ ensemble s f (nested s depth)) (state : State) :
    FaultsIn (Raises f) (strategy state) :=
  (staysWithin_strategies reports_raises (fun _ => confines_raises) (fun _ => raises_reducedFor_of)
    raises_apply depth listed state.within_everywhere).1

end Searches

end ExactRoots.Search
