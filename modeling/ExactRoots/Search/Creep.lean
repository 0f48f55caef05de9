import ExactRoots.Binary64.Neighbors
import ExactRoots.Search.State

/-!
# Creeping

The last digits of an estimate are found by trying the doubles right beside it,
in both parts for a complex estimate.
-/

namespace ExactRoots.Search

/-- How many doubles on either side a creep tries. -/
def creepReach : Nat := 2

/-- The points beside an estimate. -/
def lattice (reach : Nat) : Inexact → List Inexact
  | .real x => ((Binary64.neighbors x reach).drop 1).map .real
  | .complex re im =>
    ((Binary64.neighbors re reach).flatMap fun a =>
      (Binary64.neighbors im reach).map fun b => .complex a b).drop 1

/-- Offer candidates one by one until a zero is found. -/
def climb (f : ScalarFunction) (best : Best) : List Inexact → Except Fault Best
  | [] => .ok best
  | candidate :: rest => do
    if best.y.isZero then return best
    climb f (best.offer candidate (← evaluate f candidate)) rest

/-- The best point of the lattice around a finite estimate. -/
def creep (f : ScalarFunction) (reach : Nat) (x y : Inexact) : Except Fault Best :=
  if x.isFinite then climb f (.start x y) (lattice reach x) else .ok (.start x y)

/-- The best point around a value of any real kind.  The value itself stays as
it is when no point of the lattice is better. -/
def creepFrom (f : ScalarFunction) (reach : Nat) (x : Value) (y : Inexact) :
    Except Fault (Value × Inexact) := do
  let start ← match x with
    | .inexact x => pure x
    | .int _ | .frac _ | .decimal _ => x.toInexact
    | .exact .. | .formal _ | .text _ | .absent => throw .unsupported
  let best ← creep f reach start y
  return (if best.moved then .inexact best.x else x, best.y)

/-- The strategy that moves to the best of the nearest doubles. -/
def creepSearch (f : ScalarFunction) (state : State) : Except Fault State := do
  return state.settle (← creep f creepReach state.x state.y)

end ExactRoots.Search
