import ExactRoots.Search.Derivative

/-!
# Repeated roots

A repeated root of a function is a simple root of its quotient by its
derivative.  Where the slope has vanished and the value has not, a nested
search looks for a zero of that quotient.
-/

namespace ExactRoots.Search

/-- A search for a zero of a function from an estimate: the final state. -/
abbrev Solver := ScalarFunction → Inexact → Except Fault State

/-- The quotient of two functions, zero wherever the first is. -/
def reduced (numerator denominator : ScalarFunction) : ScalarFunction := fun v => do
  let top ← numerator v
  if ← top.isZero then return top
  top.div (← denominator v)

/-- The reduced function for a slope: the value over the slope, or the slope
over the curvature where the slope is zero. -/
def reducedFor (f : ScalarFunction) (gradient : Inexact) : ScalarFunction :=
  if gradient.isZero then
    reduced (derivative f differenceScale 0) (derivative f differenceScale 1)
  else reduced f (derivative f differenceScale 0)

/-- Whether simplifying an estimate leaves it as it is. -/
def isSimplest (x : Inexact) : Bool :=
  (Value.inexact x).simplest == .inexact x

/-- The estimate that a nested search from `start` ends at, and whether it is another one.
Both the start and the end of a search are simplified, and an estimate that simplifying
changes is another one even where its value is the same. -/
def nestedEstimate (start : Inexact) (final : State) : Except Fault (Inexact × Bool) := do
  let x ← (Value.inexact final.x).simplest.toInexact
  return (x, final.replaced || !isSimplest start)

/-- Follow a nested search, unless it runs out of its budget. -/
def followNested (f : ScalarFunction) (solve : Solver) (gradient : Inexact) (state : State) :
    Except Fault State :=
  match solve (reducedFor f gradient) state.x with
  | .error (.notConverged _) => .ok state
  | .error fault => .error fault
  | .ok final => do
    let (x, other) ← nestedEstimate state.x final
    let y ← evaluate f x
    if y.size ≤ state.y.size && other then return state.moveTo x y else return state

/-- The strategy for repeated roots, with the nested search if one may still be
started. -/
def multiplicity (s : Settings) (f : ScalarFunction) (nested : Option Solver) (state : State) :
    Except Fault State :=
  match nested with
  | none => .ok state
  | some solve => do
    if state.isDone then return state
    if state.step.size ≤ (← squaredTolerance s) then return state
    let gradient ← slope f differenceScale state.x
    if gradient.size < (← squaredTolerance s) then followNested f solve gradient state
    else return state

end ExactRoots.Search
