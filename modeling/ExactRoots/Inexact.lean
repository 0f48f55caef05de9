import ExactRoots.Binary64.Nearest
import ExactRoots.Binary64.Shortest

/-!
# Inexact numbers

A double, or a complex number whose parts are doubles.  In mixed arithmetic a
real operand becomes a complex one with imaginary part zero.  Products round
every partial product, and quotients scale by the larger part of the divisor.
Only division by zero has no value.
-/

namespace ExactRoots

/-- A number that is computed in floating point. -/
inductive Inexact where
  | real (x : Float)
  | complex (re im : Float)
  deriving DecidableEq

namespace Inexact

/-- The real part. -/
def re : Inexact → Float
  | .real x => x
  | .complex re _ => re

/-- The imaginary part. -/
def im : Inexact → Float
  | .real _ => 0.0
  | .complex _ im => im

/-- Whether the number is a double. -/
def isReal : Inexact → Bool
  | .real _ => true
  | .complex _ _ => false

/-- Apply a rule for doubles to two reals, and one for complex numbers
otherwise. -/
def lift (onReal : Float → Float → Float) (onComplex : Float → Float → Float → Float → Float × Float)
    (a b : Inexact) : Inexact :=
  match a, b with
  | .real x, .real y => .real (onReal x y)
  | a, b =>
    let (re, im) := onComplex a.re a.im b.re b.im
    .complex re im

/-- The sum. -/
def add (a b : Inexact) : Inexact :=
  lift (· + ·) (fun p q r s => (p + r, q + s)) a b

/-- The difference. -/
def sub (a b : Inexact) : Inexact :=
  lift (· - ·) (fun p q r s => (p - r, q - s)) a b

/-- The product. -/
def mul (a b : Inexact) : Inexact :=
  lift (· * ·) (fun p q r s => (p * r - q * s, p * s + q * r)) a b

/-- The negative. -/
def neg : Inexact → Inexact
  | .real x => .real (-x)
  | .complex re im => .complex (-re) (-im)

/-- The quotient of complex numbers, scaled by the larger part of the divisor
`r + s * i`; nothing when that is zero. -/
def complexQuotient? (p q r s : Float) : Option (Float × Float) :=
  if s.abs ≤ r.abs then
    if r.abs == 0.0 then none
    else
      let ratio := s / r
      let scale := r + s * ratio
      some ((p + q * ratio) / scale, (q - p * ratio) / scale)
  else if r.abs ≤ s.abs then
    let ratio := r / s
    let scale := r * ratio + s
    some ((p * ratio + q) / scale, (q * ratio - p) / scale)
  else some (Binary64.nan, Binary64.nan)

/-- The quotient, when the divisor is not zero. -/
def div? (a b : Inexact) : Option Inexact :=
  match a, b with
  | .real x, .real y => if y == 0.0 then none else some (.real (x / y))
  | a, b => (complexQuotient? a.re a.im b.re b.im).map fun (re, im) => .complex re im

/-- Numerical equality; NaN equals nothing. -/
def beq (a b : Inexact) : Bool :=
  a.re == b.re && a.im == b.im

/-- Whether the number is zero, of either sign. -/
def isZero (a : Inexact) : Bool :=
  a.re == 0.0 && a.im == 0.0

/-- The absolute value; nothing when that of finite parts is too large for a
double. -/
def abs? : Inexact → Option Float
  | .real x => some x.abs
  | .complex re im =>
    if re.isInf || im.isInf then some Binary64.infinity
    else if re.isNaN || im.isNaN then some Binary64.nan
    else
      let size := Binary64.hypot re im
      if size.isInf then none else some size

/-- The magnitude, in which NaN and whatever is too large count as infinite. -/
def size (a : Inexact) : Float :=
  match a.abs? with
  | some magnitude => if magnitude.isFinite then magnitude else Binary64.infinity
  | none => Binary64.infinity

/-- Whether the magnitude is finite. -/
def isFinite (a : Inexact) : Bool :=
  a.size < Binary64.infinity

/-- The written form: a complex number with real part zero shows its imaginary
part alone, any other stands in parentheses. -/
def text : Inexact → String
  | .real x => Binary64.text x
  | .complex re im =>
    let imaginary := Binary64.partText im ++ "j"
    if re == 0.0 && !Binary64.isNegative re then imaginary
    else
      let sign := if imaginary.startsWith "-" then "" else "+"
      "(" ++ Binary64.partText re ++ sign ++ imaginary ++ ")"

end Inexact

end ExactRoots
