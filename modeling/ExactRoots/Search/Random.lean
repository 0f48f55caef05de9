import ExactRoots.Search.Checksum
import ExactRoots.Search.Generator
import ExactRoots.Search.State

/-!
# Random search

A hill climb through random perturbations of the estimate, each a fixed share
of it.  An estimate of zero, or one that is not finite, is replaced by samples
from a window instead.  The source of random numbers is seeded by the written
form of the estimate, so equal searches give equal results.
-/

namespace ExactRoots.Search

/-- The share of the estimate that a perturbation may reach. -/
def randomRatio : Float := 0.1

/-- How many perturbations a burst tries. -/
def burstLength : Nat := 10

/-- The seed that belongs to an estimate, given its written form. -/
def seed (shown : String) : UInt32 := Checksum.ofText shown

/-- The window of samples where no range is set. -/
def standardWindow : Float × Float := (-1.0, 1.0)

/-- A sample from the window: complex in the complex plane, or when a range of
imaginary parts is set. -/
def windowSample (s : Settings) (inPlane : Bool) (g : Generator) :
    Except Fault (Inexact × Generator) := do
  let (low, high) := s.realRange.getD standardWindow
  let (re, g) ← g.uniform low high
  if inPlane || s.imagRange.isSome then
    let (low, high) := s.imagRange.getD standardWindow
    let (im, g) ← g.uniform low high
    return (.complex re im, g)
  else return (.real re, g)

/-- A random factor between minus one and one, in both parts in the complex
plane. -/
def randomFactor (inPlane : Bool) (g : Generator) : Except Fault (Inexact × Generator) := do
  let (re, g) ← g.uniform (-1.0) 1.0
  if inPlane then
    let (im, g) ← g.uniform (-1.0) 1.0
    return (.complex re im, g)
  else return (.real re, g)

/-- The next candidate from an estimate. -/
def perturb (s : Settings) (inPlane : Bool) (x : Inexact) (g : Generator) :
    Except Fault (Inexact × Generator) := do
  if !x.isZero && x.isFinite then
    let (factor, g) ← randomFactor inPlane g
    return (x.add ((x.mul (.real randomRatio)).mul factor), g)
  else windowSample s inPlane g

/-- Climb through `attempts` random candidates. -/
def wander (s : Settings) (f : ScalarFunction) (inPlane : Bool) :
    Nat → Best → Generator → Except Fault Best
  | 0, best, _ => .ok best
  | attempts + 1, best, g => do
    if best.y.isZero then return best
    let (candidate, g) ← perturb s inPlane best.x g
    wander s f inPlane attempts (best.offer candidate (← evaluate f candidate)) g

/-- The strategy that moves to the best of `attempts` random candidates. -/
def randomSearch (s : Settings) (f : ScalarFunction) (attempts : Nat) (state : State) :
    Except Fault State := do
  let g := Generator.ofSeed (seed state.x.text)
  return state.settle (← wander s f (!state.x.isReal) attempts (.start state.x state.y) g)

end ExactRoots.Search
