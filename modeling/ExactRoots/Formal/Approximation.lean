import ExactRoots.Formal.Precision

/-!
# Constants and powers to many digits

Rational approximations, good to well over a hundred binary digits, of the
circle constant, of square roots, exponentials and logarithms, and of the
powers of complex numbers.
-/

namespace ExactRoots.Approximation

/-- The fractional binary digits of the approximations. -/
def workingBits : Nat := 320

/-- A rational cut to fixed point. -/
def cut (q : Rat) : Rat :=
  mkRat (q * Nat.pow 2 workingBits).floor (Nat.pow 2 workingBits)

/-- The inverse tangent of `1 / n` in fixed point. -/
def artanOfInverse (n : Nat) : Int :=
  terms (Nat.pow 2 workingBits / n) 1 1 ((workingBits : Nat) + 8)
where
  /-- The terms from the odd power `power` on, with alternating signs. -/
  terms (odd : Nat) (power : Nat) (sign : Int) : Nat → Int
    | 0 => 0
    | fuel + 1 =>
      if odd = 0 then 0
      else sign * (odd / power : Nat) + terms (odd / (n * n)) (power + 2) (-sign) fuel

/-- The ratio of a circle's circumference to its diameter. -/
def circleConstant : Rat :=
  mkRat (16 * artanOfInverse 5 - 4 * artanOfInverse 239) (Nat.pow 2 workingBits)

/-- The exponential of a rational of at most one in size. -/
def smallExp (q : Rat) : Rat :=
  terms 1 1 120
where
  /-- The terms from the power `power` on. -/
  terms (term : Rat) (power : Nat) : Nat → Rat
    | 0 => term
    | fuel + 1 => term + terms (cut (term * q / power)) (power + 1) fuel

/-- The base of the natural logarithm. -/
def eulerConstant : Rat := smallExp 1

/-- The sum of `odd / power` and of the like terms after it: every term has
`square` more in the numerator and two more in the denominator. -/
def oddSeries (odd square : Rat) (power : Nat) : Nat → Rat
  | 0 => 0
  | fuel + 1 => cut (odd / power) + oddSeries (cut (odd * square)) square (power + 2) fuel

/-- The natural logarithm of two. -/
def logTwo : Rat := 2 * oddSeries (1 / 3) (1 / 9) 1 240

/-- The natural logarithm of a positive rational, by the series of the inverse
hyperbolic tangent. -/
def log (q : Rat) : Rat :=
  let exponent := Precision.topExponent q
  let mantissa := q * Precision.scaled false 1 (-exponent)
  -- the mantissa lies between one half and one
  let y := cut ((mantissa - 1) / (mantissa + 1))
  2 * oddSeries y (cut (y * y)) 1 240 + exponent * logTwo

/-- The exponential of a rational. -/
def exp (q : Rat) : Rat :=
  let turns := (q / logTwo).floor
  smallExp (cut (q - turns * logTwo)) * Precision.scaled false 1 turns

/-- The square root of a rational that is not negative. -/
def sqrt (q : Rat) : Rat := Precision.root .nearest workingBits (Precision.round .nearest 700 q)

/-- A positive rational to a rational power. -/
def power (base exponent : Rat) : Rat := exp (exponent * log base)

/-- The tangent of half the angle of a tangent. -/
def halfTangent (q : Rat) : Rat := cut (q / (1 + sqrt (1 + q * q)))

/-- Whether a number is so small that two terms of a series give all its digits. -/
def isTiny (q : Rat) : Bool := q.abs < mkRat 1 (Nat.pow 2 80)

/-- The inverse tangent.  The angle is halved four times, and its sixteenth has a
small tangent. -/
def artan (q : Rat) : Rat :=
  if isTiny q then q - q * q * q / 3
  else
    let small := halfTangent (halfTangent (halfTangent (halfTangent q)))
    16 * oddSeries small (-cut (small * small)) 1 60

/-- The angle of a complex number that is not zero, from minus a half turn,
exclusive, to a half turn. -/
def angle (re im : Rat) : Rat :=
  if re = 0 then (if im < 0 then -circleConstant / 2 else circleConstant / 2)
  else if 0 < re then artan (im / re)
  else if im < 0 then artan (im / re) - circleConstant
  else artan (im / re) + circleConstant

/-- The cosine and the sine of an angle, after whole turns are taken out. -/
def cosineSine (q : Rat) : Rat × Rat :=
  let turn := 2 * circleConstant
  if isTiny q then (1 - q * q / 2, q - q * q * q / 6)
  else terms (cut (q - (q / turn).floor * turn)) 1 1 160
where
  /-- The cosine and the sine, from the term `term` on. -/
  terms (q term : Rat) (power : Nat) : Nat → Rat × Rat
    | 0 => (term, 0)
    | fuel + 1 =>
      let (cosine, sine) := terms q (cut (term * q / power)) (power + 1) fuel
      (term - sine, cosine)

/-- A number that is too small for an approximation to tell it from zero is
zero. -/
def settleZero (q : Rat) : Rat := if q.abs < mkRat 1 (Nat.pow 2 200) then 0 else q

/-- A point of the complex plane, approximated. -/
structure Point where
  re : Rat
  im : Rat

namespace Point

/-- The sum. -/
def add (u v : Point) : Point := ⟨u.re + v.re, u.im + v.im⟩

/-- The product. -/
def mul (u v : Point) : Point := ⟨u.re * v.re - u.im * v.im, u.re * v.im + u.im * v.re⟩

/-- The inverse of a point that is not zero. -/
def inv (u : Point) : Point :=
  let size := u.re * u.re + u.im * u.im
  ⟨u.re / size, -u.im / size⟩

/-- Both parts cut to the digits of an approximation. -/
def shorten (u : Point) : Point :=
  let part (q : Rat) : Rat := Precision.round .nearest (2 * workingBits) q
  ⟨part u.re, part u.im⟩

/-- A natural power by squaring. -/
def powNat (u : Point) : (n fuel : Nat) → Point
  | _, 0 => ⟨1, 0⟩
  | n, fuel + 1 =>
    if n = 0 then ⟨1, 0⟩
    else
      let half := powNat u (n / 2) fuel
      let square := (half.mul half).shorten
      if n % 2 = 1 then (u.mul square).shorten else square

/-- Whether both parts are zero. -/
def isZero (u : Point) : Bool := u.re == 0 && u.im == 0

/-- A power with any exponent, by size and angle. -/
def polarPower (u v : Point) : Point :=
  let size := log (u.re * u.re + u.im * u.im) / 2
  let turn := angle u.re u.im
  let (cosine, sine) := cosineSine (v.im * size + v.re * turn)
  let length := exp (v.re * size - v.im * turn)
  ⟨length * settleZero cosine, length * settleZero sine⟩

/-- A power; none of zero to an exponent that is not positive. -/
def pow? (u v : Point) : Option Point :=
  if v.im = 0 ∧ v.re.den = 1 ∧ v.re.num.natAbs ≤ 4096 then
    if 0 ≤ v.re.num then some (u.powNat v.re.num.natAbs 64)
    else if u.isZero then none else some (u.inv.powNat v.re.num.natAbs 64)
  else if u.isZero then (if 0 < v.re then some ⟨0, 0⟩ else none)
  else some (u.polarPower v)

end Point

end ExactRoots.Approximation
