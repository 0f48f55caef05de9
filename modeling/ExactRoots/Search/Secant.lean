import ExactRoots.Search.State

/-!
# The secant method

The secant through the guess and the estimate, and on through each new pair of
points.  The strategy keeps the best point that it visits.
-/

namespace ExactRoots.Search

/-- The next point of the secant through two points, while the secant is
neither flat nor broken. -/
def secantPoint? (x₀ y₀ x₁ y₁ : Inexact) : Option Inexact :=
  let rise := y₁.sub y₀
  if rise.isZero || !rise.isFinite then none
  else
    match (y₁.mul (x₁.sub x₀)).div? rise with
    | none => none
    | some move =>
      let x₂ := x₁.sub move
      if x₂.isFinite then some x₂ else none

/-- The secant iteration with `fuel` steps left. -/
def secantFrom (s : Settings) (f : ScalarFunction) :
    Nat → (x₀ y₀ x₁ y₁ : Inexact) → Best → Except Fault Best
  | 0, _, _, _, _, best => .ok best
  | fuel + 1, x₀, y₀, x₁, y₁, best => do
    if y₁.isZero then return best
    match secantPoint? x₀ y₀ x₁ y₁ with
    | none => return best
    | some x₂ =>
      let y₂ ← evaluate f x₂
      let best := best.offer x₂ y₂
      if (x₂.sub x₁).size ≤ (← squaredTolerance s) then return best
      secantFrom s f fuel x₁ y₁ x₂ y₂ best

/-- The strategy of the secant method, from the guess and the estimate. -/
def secant (s : Settings) (f : ScalarFunction) (state : State) : Except Fault State := do
  if state.y.size ≤ s.tolerance && state.step.size ≤ s.tolerance then return state
  if state.guess.beq state.x then return state
  let value ← evaluate f state.guess
  return state.settle
    (← secantFrom s f s.iterations state.guess value state.x state.y (.start state.x state.y))

end ExactRoots.Search
