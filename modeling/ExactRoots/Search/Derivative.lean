import ExactRoots.Raw
import ExactRoots.Search.State

/-!
# Finite differences

Derivatives by central differences.  The step is a fixed fraction of the
argument, and the distance from one to the next double where that is zero.
-/

namespace ExactRoots

namespace Search

/-- The fraction of the argument that a difference steps by. -/
def differenceScale : Float := 1e-5

/-- The least fraction that Newton's method shrinks to. -/
def leastDifferenceScale : Float := 1e-11

/-- The central difference of a function at a value. -/
def difference (f : ScalarFunction) (scale : Float) (x : Value) : Except Fault Value := do
  let delta ← x.mul (.float scale)
  let delta := if ← delta.isZero then .float Binary64.epsilon else delta
  let above ← f (← x.add delta)
  let below ← f (← x.sub delta)
  (← above.sub below).div (← delta.mul (.int 2))

/-- The central difference of the evaluated function at an estimate. -/
def slope (f : ScalarFunction) (scale : Float) (x : Inexact) : Except Fault Inexact := do
  let delta := x.mul (.real scale)
  let delta := if delta.isZero then .real Binary64.epsilon else delta
  let above ← evaluate f (x.add delta)
  let below ← evaluate f (x.sub delta)
  match (above.sub below).div? (delta.mul (.real 2.0)) with
  | some quotient => return quotient
  | none => throw .divisionByZero

/-- The derivative of order `n + 1`: nested differences of first order. -/
def derivative (f : ScalarFunction) (scale : Float) : Nat → ScalarFunction
  | 0 => difference f scale
  | n + 1 => difference (derivative f scale n) scale

end Search

/-- The order of a derivative: a positive integer, or the truth value that
counts as one. -/
def Raw.order (raw : Raw) : Except Fault Nat := do
  match raw with
  | .int n => if 1 ≤ n then return n.toNat else throw (.orderNotPositive (← raw.shown))
  | .flag true => return 1
  | raw => throw (.orderNotPositive (← raw.shown))

end ExactRoots
