import ExactRoots.Binary64.Dyadic
import ExactRoots.Natural.FloorSqrt

/-!
# Rounding to the nearest double

Every conversion in the library that ends in a double rounds an exact quotient
once, to the nearest double with ties to the even mantissa.  The position of a
double among the doubles of its sign is its bit pattern, so rounding is
arithmetic on that pattern: a carry out of the mantissa raises the exponent by
itself, and the pattern of infinity follows the largest finite one.
-/

namespace ExactRoots.Binary64

/-- The bit pattern of positive infinity. -/
def infinityPattern : Nat := 0x7ff0000000000000

/-- The bit pattern of the double nearest to `num / den`, for a positive
denominator; at most that of infinity. -/
def nearestPattern (num den : Nat) : Nat :=
  if num = 0 then 0 else
    let estimate : Int := (num.log2 : Int) - den.log2
    -- the exponent of the leading binary digit of the quotient
    let leading :=
      if 0 ≤ estimate then
        if num < den <<< estimate.toNat then estimate - 1 else estimate
      else
        if num <<< (-estimate).toNat < den then estimate - 1 else estimate
    let unit := max (leading - 52) (-1074)
    if 971 < unit then infinityPattern else
      let mantissa :=
        if 0 ≤ unit then roundHalfEven num (den <<< unit.toNat)
        else roundHalfEven (num <<< (-unit).toNat) den
      min infinityPattern ((unit + 1074).toNat * Nat.pow 2 52 + mantissa)

/-- A double from its sign and the pattern of its size. -/
def ofPattern (negative : Bool) (pattern : Nat) : Float :=
  Float.ofBits (UInt64.ofNat (if negative then pattern + Nat.pow 2 63 else pattern))

/-- The double nearest to `± num / den`. -/
def ofRatio (negative : Bool) (num den : Nat) : Float :=
  ofPattern negative (nearestPattern num den)

/-- The double nearest to a rational, infinite when it is too large. -/
def ofRat (q : Rat) : Float :=
  ofRatio (q.num < 0) q.num.natAbs q.den

/-- The double nearest to an integer, infinite when it is too large. -/
def ofInt (n : Int) : Float :=
  ofRatio (n < 0) n.natAbs 1

/-- The double nearest to a rational that is not too large for one. -/
def ofRat? (q : Rat) : Option Float :=
  let x := ofRat q
  if x.isFinite then some x else none

/-- The double nearest to `± digits * 10 ^ exponent`.  Exponents far outside
the range of doubles are answered without forming the power. -/
def ofScientific (negative : Bool) (digits : Nat) (exponent : Int) : Float :=
  if digits = 0 then ofPattern negative 0 else
    let top := exponent + decimalLength digits
    if 400 < top then ofPattern negative infinityPattern
    else if top < -400 then ofPattern negative 0
    else if 0 ≤ exponent then ofRatio negative (digits * Nat.pow 10 exponent.toNat) 1
    else ofRatio negative digits (Nat.pow 10 (-exponent).toNat)

/-- A double rounded to `places` decimals: its exact value is rounded, a tie
going to the even neighbour, and the result is the nearest double.  The answer
is infinite when that double is. -/
def roundTo (x : Float) (places : Int) : Float :=
  match dyadic? x with
  | none => x
  | some d =>
    if 323 < places then x
    else if places < -308 then zeroLike x
    else
      let (num, den) := d.ratio
      if 0 ≤ places then
        let scale := Nat.pow 10 places.toNat
        ofRatio d.negative (roundHalfEven (num * scale) den) scale
      else
        let scale := Nat.pow 10 (-places).toNat
        ofRatio d.negative (roundHalfEven num (den * scale) * scale) 1

/-- The double nearest to `√(num / den) * 2 ^ scale`.  The root is taken to at
least 57 binary digits, and a digit below them says whether it was exact. -/
def rootOfRatio (num den : Nat) (scale : Int) : Float :=
  if num = 0 then ofPattern false 0 else
    let extra := (116 - ((num.log2 : Int) - den.log2)) / 2
    let scaledNum := if 0 ≤ extra then num <<< (2 * extra.toNat) else num
    let scaledDen := if 0 ≤ extra then den else den <<< (2 * (-extra).toNat)
    let root := floorSqrt (scaledNum / scaledDen)
    let sticky := if root * root * scaledDen = scaledNum then 0 else 1
    let exponent := scale - extra - 1
    if 0 ≤ exponent then ofRatio false ((2 * root + sticky) <<< exponent.toNat) 1
    else ofRatio false (2 * root + sticky) (1 <<< (-exponent).toNat)

/-- The length of the hypotenuse over two finite doubles, rounded once. -/
def hypot (x y : Float) : Float :=
  match dyadic? x, dyadic? y with
  | some a, some b =>
    let low := min a.exponent b.exponent
    let m := a.mantissa <<< (a.exponent - low).toNat
    let n := b.mantissa <<< (b.exponent - low).toNat
    rootOfRatio (m * m + n * n) 1 low
  | _, _ => nan

end ExactRoots.Binary64
