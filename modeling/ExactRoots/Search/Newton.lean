import ExactRoots.Search.Creep
import ExactRoots.Search.Derivative
import ExactRoots.Search.Random

/-!
# Newton's method

Newton's method with a finite difference for the slope.  Where the slope
vanishes or is not finite a short random burst looks for a better place; where
a step does not improve, the difference is taken more finely.
-/

namespace ExactRoots.Search

/-- One Newton candidate from an estimate: the full step, refined among its
neighbours when the step is within the tolerance. -/
def newtonCandidate (s : Settings) (f : ScalarFunction) (x delta : Inexact) :
    Except Fault Best := do
  let candidate := x.sub delta
  let value ← evaluate f candidate
  if delta.size ≤ s.tolerance then creep f creepReach candidate value
  else return .start candidate value

/-- Newton's iteration with `fuel` steps left, from a difference scale. -/
def newtonFrom (s : Settings) (f : ScalarFunction) : Nat → Float → State → Except Fault State
  | 0, _, state => .ok state
  | fuel + 1, scale, state => do
    if state.isDone then return state
    let gradient ← slope f scale state.x
    if gradient.isZero || !gradient.isFinite then
      let burst ← randomSearch s f burstLength state
      if burst.y.size < state.y.size then newtonFrom s f fuel scale burst else return state
    else
      match state.y.div? gradient with
      | none => throw .divisionByZero
      | some delta =>
        let candidate ← newtonCandidate s f state.x delta
        if candidate.y.size < state.y.size then
          newtonFrom s f fuel scale (state.moveTo candidate.x candidate.y)
        else if leastDifferenceScale < scale then newtonFrom s f fuel (scale / 10.0) state
        else return state

/-- The strategy of Newton's method. -/
def newton (s : Settings) (f : ScalarFunction) (state : State) : Except Fault State :=
  newtonFrom s f s.iterations differenceScale state

end ExactRoots.Search
