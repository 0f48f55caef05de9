import ExactRoots.Value.Conversion

/-!
# Square roots

The principal square root, exact whenever it can be: perfect squares of
integers and fractions keep their kind, negative reals give imaginary roots,
and a complex number takes the half-angle formula

  `x = √((re + |v|) / 2)`, `y = √((|v| - re) / 2)`,

with the sign of the imaginary part on `y`.
-/

namespace ExactRoots.Value

/-- The number of digits to which roots outside the range of doubles are
taken. -/
def wideDigits : Nat := 20

/-- The floating square root of a rational of any size.  A rational that is too
large for a double is divided after the roots of its parts are taken. -/
def floatRoot (q : Rat) : Except Fault Float :=
  match Binary64.ofRat? q with
  | some x => .ok x.sqrt
  | none =>
    let root (n : Int) := Decimal.sqrtTo wideDigits (.ofInt n)
    let quotient : Except DecimalSignal Decimal := do
      (← root q.num).divTo wideDigits (← root q.den)
    match quotient with
    | .error signal => .error signal.fault
    | .ok d =>
      match d.toFloat? with
      | some x => .ok x
      | none => .error .malformed

/-- The square root of a rational that is not negative. -/
def rationalRoot (q : Rat) : Except Fault Value :=
  match squareRoot? q.num.natAbs, squareRoot? q.den with
  | some m, some n => .ok (ofRat (mkRat m n))
  | _, _ => (floatRoot q).map (ofFloat true)

/-- The square root of a real value that is not below zero. -/
def nonnegRoot : Value → Except Fault Value
  | .int n => rationalRoot n
  | .frac q => rationalRoot q
  | .inexact (.real x) => .ok (ofFloat true x.sqrt)
  | .decimal d => ofDecimal d.sqrt
  | .text s => .error (.noSquareRoot "str" (quotedText s))
  | .absent => .error (.noSquareRoot "NoneType" "None")
  | .inexact (.complex ..) | .exact .. | .formal _ => .error .unsupported

/-- The square root of a value without imaginary part. -/
def realRoot (v : Value) : Except Fault Value := do
  match v.tidy with
  | .text s => nonnegRoot (.text s)
  | .absent => nonnegRoot .absent
  | v =>
    if ← v.isBelowZero then makeComplex (.int 0) (← nonnegRoot (← v.neg))
    else nonnegRoot v

/-- The half-angle formula for a complex number with the given parts. -/
def complexRoot (re im : Value) : Except Fault Value := do
  let size ← realRoot (← (← re.mul re).add (← im.mul im))
  let x ← realRoot (← quo (← re.add size) (.int 2))
  let y ← realRoot (← quo (← size.sub re) (.int 2))
  let y ← if ← im.isBelowZero then y.neg else pure y
  makeComplex x y

/-- The principal square root. -/
def sqrt (v : Value) : Except Fault Value :=
  if v.isComplex then complexRoot v.realPart v.imagPart else realRoot v

/-- A square root of a rational: exact for the square of a rational, and
otherwise the nearest double, on the imaginary axis below zero. -/
def rootOf (q : Rat) : Value :=
  match squareRoot? q.num.natAbs, squareRoot? q.den with
  | some m, some n =>
    let root := mkRat m n
    ofGaussian (if q.num < 0 then ⟨0, root⟩ else ⟨root, 0⟩)
  | _, _ =>
    let root := Binary64.rootOfRatio q.num.natAbs q.den 0
    if q.num < 0 then .complex 0.0 root else .float root

end ExactRoots.Value
