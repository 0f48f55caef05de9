import ExactRoots.Binary64.Nearest

/-!
# Common logarithms

The logarithm to base ten of a positive double, rounded to the nearest double.
It is computed in fixed point with 160 fractional bits from the series of the
inverse hyperbolic tangent, so the rounding sees far more digits than a double
holds.
-/

namespace ExactRoots.Binary64

/-- Fractional bits of the fixed-point numbers below. -/
def fixedBits : Nat := 160

/-- Twice the inverse hyperbolic tangent of `num / den` in fixed point, for a
quotient of at most one third. -/
def twiceArtanh (num den : Nat) : Nat :=
  let y := (num <<< fixedBits) / den
  let square := (y * y) >>> fixedBits
  2 * terms square y 1 60
where
  /-- The terms from the odd power `power` on. -/
  terms (square : Nat) (odd power : Nat) : Nat → Nat
    | 0 => 0
    | fuel + 1 => odd / power + terms square ((odd * square) >>> fixedBits) (power + 2) fuel

/-- The natural logarithm of two in fixed point. -/
def logTwo : Nat := twiceArtanh 1 3

/-- The natural logarithm of ten in fixed point. -/
def logTen : Nat := 3 * logTwo + twiceArtanh 1 9

/-- The natural logarithm of a positive dyadic number in fixed point. -/
def naturalLog (d : Dyadic) : Int :=
  let size := d.mantissa.log2
  let unit := Nat.pow 2 size
  -- the mantissa as a number from one to two
  (twiceArtanh (d.mantissa - unit) (d.mantissa + unit) : Int) + (d.exponent + size) * logTwo

/-- The common logarithm of a positive finite dyadic number. -/
def log10Dyadic (d : Dyadic) : Float :=
  let log := naturalLog d
  -- an error in the last bits of the fixed-point numbers must not keep an exact
  -- power of ten from its exponent
  let scaled := (log.natAbs * Nat.pow 2 100 + logTen / 2) / logTen
  ofRatio (log < 0) scaled (Nat.pow 2 100)

/-- The common logarithm of a positive integer of any size; above the range of
doubles it is that of the mantissa plus the exponent's share. -/
def log10Nat (n : Nat) : Float :=
  let x := ofInt n
  match dyadic? x with
  | some d => log10Dyadic d
  | none =>
    let exponent := n.log2 + 1
    let mantissa := ofRatio false n (Nat.pow 2 exponent)
    let (fraction, power) := if mantissa == 1.0 then (0.5, exponent + 1) else (mantissa, exponent)
    match dyadic? fraction with
    | some d => log10Dyadic d + log10Dyadic ⟨false, 2, 0⟩ * ofInt power
    | none => x

/-- The common logarithm of a positive double that is not NaN. -/
def log10 (x : Float) : Float :=
  match dyadic? x with
  | some d => log10Dyadic d
  | none => x

end ExactRoots.Binary64
