import ExactRoots.Natural.Rounding

/-!
# Doubles as exact numbers

A finite double is a sign, a natural number and a power of two.  This module
reads that form off the bits, and gives the predicates and conversions that
follow from it: the rational value, integrality, and the integer parts.
-/

namespace ExactRoots

/-- The number `± mantissa * 2 ^ exponent`. -/
structure Dyadic where
  negative : Bool
  mantissa : Nat
  exponent : Int
  deriving DecidableEq, Repr

namespace Dyadic

/-- The size of a dyadic number as a quotient of natural numbers. -/
def ratio (d : Dyadic) : Nat × Nat :=
  if 0 ≤ d.exponent then (d.mantissa * Nat.pow 2 d.exponent.toNat, 1)
  else (d.mantissa, Nat.pow 2 (-d.exponent).toNat)

/-- The rational that a dyadic number denotes. -/
def toRat (d : Dyadic) : Rat :=
  let (num, den) := d.ratio
  mkRat (if d.negative then -num else num) den

/-- Whether a dyadic number is an integer. -/
def isIntegral (d : Dyadic) : Bool :=
  let (num, den) := d.ratio
  num % den == 0

/-- The integer part, rounded toward zero. -/
def truncate (d : Dyadic) : Int :=
  let (num, den) := d.ratio
  let size := num / den
  if d.negative then -(size : Int) else size

/-- The nearest integer, a tie going to the even neighbour. -/
def nearestInt (d : Dyadic) : Int :=
  let (num, den) := d.ratio
  let size := roundHalfEven num den
  if d.negative then -(size : Int) else size

end Dyadic

namespace Binary64

/-- The exact form of a finite double; infinities and NaN have none. -/
def dyadic? (x : Float) : Option Dyadic :=
  let bits := x.toBits.toNat
  let negative := bits / Nat.pow 2 63 == 1
  let biased : Nat := bits / Nat.pow 2 52 % Nat.pow 2 11
  let fraction := bits % Nat.pow 2 52
  if biased = 2047 then none
  else if biased = 0 then some ⟨negative, fraction, -1074⟩
  else some ⟨negative, fraction + Nat.pow 2 52, (biased : Int) - 1075⟩

/-- Whether the sign bit is set. -/
def isNegative (x : Float) : Bool :=
  x.toBits.toNat / Nat.pow 2 63 == 1

/-- The rational that a finite double denotes. -/
def toRat? (x : Float) : Option Rat :=
  (dyadic? x).map Dyadic.toRat

/-- Whether a double is finite and an integer. -/
def isIntegral (x : Float) : Bool :=
  match dyadic? x with
  | some d => d.isIntegral
  | none => false

/-- The integer that an integral double denotes. -/
def toInt? (x : Float) : Option Int :=
  (dyadic? x).bind fun d => if d.isIntegral then some d.truncate else none

/-- Not a number. -/
def nan : Float := Float.ofBits 0x7ff8000000000000

/-- Positive infinity. -/
def infinity : Float := Float.ofBits 0x7ff0000000000000

/-- The distance from one to the next double, `2 ^ -52`. -/
def epsilon : Float := Float.ofBits 0x3cb0000000000000

/-- A zero with the sign of `x`. -/
def zeroLike (x : Float) : Float :=
  if isNegative x then Float.ofBits 0x8000000000000000 else Float.ofBits 0

end Binary64

end ExactRoots
