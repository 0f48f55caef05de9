import ExactRoots.Settings.Basic
import ExactRoots.Coefficients.Division

/-!
# Checking a deflation

Dividing out a root must shorten the polynomial and leave a remainder that is
small beside its coefficients.
-/

namespace ExactRoots.Deflation

/-- The greatest magnitude among the coefficients, and at least `least`. -/
def greatest (least : Float) : Coefficients → Except Fault Float
  | [] => .ok least
  | c :: cs => do
    let size ← c.magnitude
    greatest (if least < size then size else least) cs

/-- Whether any coefficient is larger than a limit. -/
def exceeds (limit : Float) : Coefficients → Except Fault Bool
  | [] => .ok false
  | c :: cs => do
    if limit < (← c.magnitude) then return true else exceeds limit cs

/-- The largest remainder that a deflation may leave. -/
def remainderLimit (s : Settings) (current : Coefficients) : Except Fault Float := do
  return s.remainderTolerance * (← greatest 1.0 current)

/-- Check a deflation; one that passes has shortened the polynomial.  A root or a remainder
that cannot be written cannot be complained of either. -/
def check (s : Settings) (current quotient remainder : Coefficients) (root : Value) :
    Except Fault (PLift (quotient.length < current.length)) := do
  let limit ← remainderLimit s current
  if shorter : quotient.length < current.length then
    if ← exceeds limit remainder then
      throw (.remainderLeft (← root.display) (← Value.listText remainder) (Binary64.text limit))
    else return ⟨shorter⟩
  else
    throw (.degreeNotReduced (← root.display) ((quotient.length : Int) - 1)
      ((current.length : Int) - 1))

end ExactRoots.Deflation
