import ExactRoots.Search.Multiplicity
import ExactRoots.Search.Newton
import ExactRoots.Search.Secant
import ExactRoots.Search.Snap

/-!
# Finding one zero

The strategies run in a fixed order, and the whole ensemble is repeated while
the estimate still moves and the budget lasts.  A zero of the function ends the
search at once.  A search succeeds when the value is within the tolerance and
the last round moved the estimate by no more than that.
-/

namespace ExactRoots

namespace Search

/-- A strategy: from one state of a search to the next. -/
abbrev Strategy := State → Except Fault State

/-- The ensemble of strategies in order. -/
def ensemble (s : Settings) (f : ScalarFunction) (nested : Option Solver) : List Strategy :=
  [newton s f, randomSearch s f s.iterations, multiplicity s f nested, secant s f,
    creepSearch f, snap f]

/-- Run strategies in order until a zero is found. -/
def runAll : List Strategy → Strategy
  | [], state => .ok state
  | strategy :: rest, state => do
    let next ← strategy state
    if next.isDone then return next else runAll rest next

/-- Whether a round has brought the search to rest. -/
def atRest (s : Settings) (state : State) (displacement : Float) : Except Fault Bool := do
  if displacement == 0.0 then return true
  return state.y.size < (← squaredTolerance s) && state.step.size < s.tolerance
    && displacement < s.tolerance

/-- Repeat the ensemble with `loops` rounds left; the last displacement comes
with the final state. -/
def rounds (s : Settings) (strategies : List Strategy) :
    Nat → State → Float → Except Fault (State × Float)
  | 0, state, displacement => .ok (state, displacement)
  | loops + 1, state, displacement => do
    if state.isDone then return (state, displacement)
    let next ← runAll strategies state
    if next.isDone then return (next, displacement)
    let displacement := (next.x.sub state.x).size
    if ← atRest s next displacement then return (next, displacement)
    rounds s strategies loops next displacement

/-- Whether a final state is good enough. -/
def converged (s : Settings) (state : State) (displacement : Float) : Bool :=
  state.isDone || !(s.tolerance < state.y.size || s.tolerance < displacement)

/-- The state at the beginning of a search. -/
def initial (s : Settings) (f : ScalarFunction) (depth : Int) (x : Inexact) :
    Except Fault State := do
  return { x, y := ← evaluate f x, step := .real (s.tolerance * 100.0), guess := x, depth }

/-- Where a search stands that has run out of its budget. -/
def stallAt (s : Settings) (state : State) (displacement : Float) : Except Fault Stall := do
  return { tolerance := s.tolerance, loops := ← writeInt s.loops,
           iterations := ← writeInt s.iterations, x := state.x, y := state.y, displacement }

/-- Search with the given nested search at hand. -/
def solveWith (s : Settings) (nested : Option Solver) (depth : Int) : Solver := fun f x => do
  let (state, displacement) ←
    rounds s (ensemble s f nested) s.loops (← initial s f depth x) 0.0
  if converged s state displacement then return state
  throw (.notConverged (← stallAt s state displacement))

/-- The depth from which no nested search is started. -/
def mostDepth : Int := 2

/-- The nested search that a search at some depth may start, when `levels` more
levels of nesting are allowed. -/
def nestedAt (s : Settings) (depth : Int) : Nat → Option Solver
  | 0 => none
  | levels + 1 => some fun f x => do
    solveWith s (nestedAt s (depth + 1) levels) (depth + 1) f
      (← (Value.inexact x).toInexact)

/-- The nested search that a search at some depth may start. -/
def nested (s : Settings) (depth : Int) : Option Solver :=
  nestedAt s depth (mostDepth - depth).toNat

/-- The final state of a search from a guess. -/
def solve (s : Settings) (depth : Int) : Solver :=
  solveWith s (nested s depth) depth

end Search

/-- One zero of a function, from a guess.  A real guess keeps the search on the
real line. -/
def findOneRoot (s : Settings) (f : ScalarFunction) (depth : Int) (guess : Value) :
    Except Fault Value := do
  let final ← Search.solve s depth f (← guess.toInexact)
  return (Value.inexact final.x).simplest

end ExactRoots
