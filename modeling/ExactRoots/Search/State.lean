import ExactRoots.Settings.Basic
import ExactRoots.Value.Conversion

/-!
# Search states

A search looks for a zero of a function of one value.  Its state pairs the
estimate with the value of the function there, and keeps the last move and the
starting guess.  `evaluate` turns a value that is too large, or a division by
zero, into NaN, which counts as infinitely far from zero.
-/

namespace ExactRoots

/-- A function of one value, which may fail. -/
abbrev ScalarFunction := Value → Except Fault Value

namespace Search

/-- The value of a function as an inexact number; overflow and division by zero
give NaN. -/
def evaluateAt (f : ScalarFunction) (x : Value) : Except Fault Inexact :=
  match f x >>= Value.toInexact with
  | .ok y => .ok y
  | .error fault => if fault.isArithmetic then .ok (.real Binary64.nan) else .error fault

/-- The value of a function at an estimate. -/
def evaluate (f : ScalarFunction) (x : Inexact) : Except Fault Inexact :=
  evaluateAt f (.inexact x)

/-- A point with the value there, and whether it took the place of the point
that a climb started from. -/
structure Best where
  x : Inexact
  y : Inexact
  moved : Bool
  deriving DecidableEq

namespace Best

/-- The start of a climb. -/
def start (x y : Inexact) : Best := ⟨x, y, false⟩

/-- Take a point with a strictly smaller value. -/
def offer (b : Best) (x y : Inexact) : Best :=
  if y.size < b.y.size then ⟨x, y, true⟩ else b

/-- Take a point whose value is no larger. -/
def offerTie (b : Best) (x y : Inexact) : Best :=
  if y.size ≤ b.y.size then ⟨x, y, true⟩ else b

end Best

/-- One point of a search: estimate, value, last move, guess, and how deeply the
search is nested.  `replaced` tells whether the estimate has been replaced
since the search began. -/
structure State where
  x : Inexact
  y : Inexact
  step : Inexact
  guess : Inexact
  depth : Int
  replaced : Bool := false
  deriving DecidableEq

namespace State

/-- Whether the estimate is a zero. -/
def isDone (s : State) : Bool := s.y.isZero

/-- Move to another point by a step. -/
def moveBy (s : State) (x y step : Inexact) : State :=
  { s with x, y, step, replaced := true }

/-- Move to another point. -/
def moveTo (s : State) (x y : Inexact) : State :=
  s.moveBy x y (x.sub s.x)

/-- Move to the best point of a climb, if the climb found one. -/
def settle (s : State) (b : Best) : State :=
  if b.moved then s.moveTo b.x b.y else s

end State

/-- The square of the tolerance, which must not be too large for a double. -/
def squaredTolerance (s : Settings) : Except Fault Float :=
  let square := s.tolerance * s.tolerance
  if square.isInf && s.tolerance.isFinite then .error .overflow else .ok square

end Search

end ExactRoots
