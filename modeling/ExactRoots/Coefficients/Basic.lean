import ExactRoots.Value.SquareRoot

/-!
# Coefficient lists

A polynomial is the list of its coefficients from the highest power down to the
constant term.  Leading zeros change neither the polynomial nor its value, and
Horner's rule evaluates it.
-/

namespace ExactRoots

/-- Coefficients from the highest power down. -/
abbrev Coefficients := List Value

namespace Coefficients

/-- Every coefficient in simplest form. -/
def simplest (cs : Coefficients) : Coefficients := cs.map Value.simplest

/-- The coefficients from the first nonzero one on. -/
def stripZeros : Coefficients → Except Fault Coefficients
  | [] => .ok []
  | c :: cs => do
    if ← c.isZero then stripZeros cs else return c :: cs

/-- Horner's rule from an accumulator. -/
def hornerFrom (x : Value) (acc : Value) : Coefficients → Except Fault Value
  | [] => .ok acc
  | c :: cs => do hornerFrom x (← (← acc.mul x).add c) cs

/-- Whether exact complex numbers stand beside floating ones. -/
def isMixed (vs : List Value) : Bool :=
  vs.any Value.isFormal && vs.any fun
    | .inexact _ | .decimal _ => true
    | _ => false

/-- The value at `x` by Horner's rule, not simplified.  Beside floating numbers,
exact complex ones are not multiplied out before the end. -/
def horner (cs : Coefficients) (x : Value) : Except Fault Value :=
  if isMixed (x :: cs) then hornerFrom x.unsettled (.int 0) (cs.map Value.unsettled)
  else hornerFrom x (.int 0) cs

/-- The value at `x` in simplest form. -/
def evaluate (cs : Coefficients) (x : Value) : Except Fault Value := do
  return (← horner cs x).simplest

end Coefficients

end ExactRoots
