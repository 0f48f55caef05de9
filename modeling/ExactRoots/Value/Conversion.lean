import ExactRoots.Binary64.Reader
import ExactRoots.Value.Comparison

/-!
# Conversions and quotients

A value as an inexact number, a complex value from its parts, lists that mix
decimals with other kinds, and the quotient that stays exact for exact
operands.
-/

namespace ExactRoots.Value

/-- A rational cut toward zero to the digits of an evaluation, and then rounded to
the nearest double. -/
def shortenedFloat (q : Rat) : Float :=
  Binary64.ofRat (Precision.round .towardZero Formal.evaluationBits q)

/-- A value as a double.  Complex numbers have none; a text has the one it
spells. -/
def toFloat : Value → Except Fault Float
  | .int n =>
    match Binary64.ofRat? n with
    | some x => .ok x
    | none => .error .overflow
  | .frac q =>
    match Binary64.ofRat? q with
    | some x => .ok x
    | none => .error .overflow
  | .decimal d =>
    match d.toFloat? with
    | some x => .ok x
    | none => .error .malformed
  | .inexact (.real x) => .ok x
  | .text s =>
    match Binary64.read? s with
    | some x => .ok x
    | none => .error .malformed
  | .inexact (.complex ..) | .exact .. | .formal _ | .absent => .error .unsupported

/-- A value as an inexact number. -/
def toInexact (v : Value) : Except Fault Inexact :=
  match v.tidy with
  | .inexact x => .ok x
  | .exact re im _ => .ok (.complex (shortenedFloat re) (shortenedFloat im))
  | v => (toFloat v).map .real

/-- The simplest value equal to `re + im * i`. -/
def makeComplex (re im : Value) : Except Fault Value := do
  let re := re.simplest
  let im := im.simplest
  if ← im.isZero then return re
  match re.rational?, im.rational? with
  | some p, some q => return ofGaussian ⟨p, q⟩
  | _, _ =>
    let x ← re.toFloat
    let y ← im.toFloat
    return .complex x y

/-- Make every value inexact when a decimal stands beside a value that it does
not mix with.  A list of decimals and integers stays as it is. -/
def coerceDecimals (vs : List Value) : Except Fault (List Value) :=
  let mixes : Value → Bool
    | .decimal _ | .int _ => true
    | _ => false
  if !vs.any isDecimal || vs.all mixes then .ok vs
  else vs.mapM fun v => v.toInexact.map .inexact

/-- The quotient in simplest form, exact when both operands are. -/
def quo (numerator denominator : Value) : Except Fault Value := do
  if ← denominator.isZero then throw (.zeroDivisor (← numerator.display))
  else
    match numerator.rational?, denominator.rational? with
    | some p, some q => return ofRat (p / q)
    | _, _ => return (← div numerator denominator).simplest

/-- The absolute value of the inexact form. -/
def magnitude (v : Value) : Except Fault Float := do
  match (← v.toInexact).abs? with
  | some size => return size
  | none => throw .overflow

end ExactRoots.Value
