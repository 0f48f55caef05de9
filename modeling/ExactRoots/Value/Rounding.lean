import ExactRoots.Binary64.Logarithm
import ExactRoots.Value.Conversion

/-!
# Rounding to places and to figures

A real value rounded half-even to a number of decimals keeps its kind.  Parts
of a complex value are rounded separately.  Rounding to significant figures
counts the places from the common logarithm of the size.
-/

namespace ExactRoots.Value

/-- A value without imaginary part rounded to `places` decimals. -/
def roundReal (places : Int) : Value → Except Fault Value
  | .int n => .ok (.int (if 0 ≤ places then n else (roundRationalTo n places).num))
  | .frac q => .ok (.frac (roundRationalTo q places))
  | .inexact (.real x) =>
    let rounded := Binary64.roundTo x places
    if rounded.isInf && x.isFinite then .error .overflow else .ok (.float rounded)
  | .decimal d => ofDecimal (d.roundTo places)
  | .inexact (.complex ..) | .exact .. | .formal _ | .text _ | .absent => .error .unsupported

/-- A value rounded to `places` decimals. -/
def round (places : Int) (v : Value) : Except Fault Value := do
  if v.isComplex then
    makeComplex (← roundReal places v.realPart) (← roundReal places v.imagPart)
  else roundReal places v.tidy

/-- The least integer that is at least a double. -/
def ceiling (x : Float) : Except Fault Int :=
  match Binary64.dyadic? x with
  | some d => .ok d.toRat.ceil
  | none => .error (if x.isNaN then .malformed else .overflow)

/-- The common logarithm of the size of a real value. -/
def logSize : Value → Except Fault Float
  | .int n => if n = 0 then .error .malformed else .ok (Binary64.log10Nat n.natAbs)
  | v => do
    let v ← match v with
      | .decimal d => ofDecimal d.abs
      | v => pure v
    let x ← v.toFloat
    if x == 0.0 then .error .malformed else .ok (Binary64.log10 x.abs)

/-- The most places that rounding to figures uses. -/
def mostPlaces : Int := 308

/-- A value without imaginary part rounded to `figures` significant
figures. -/
def figuresReal (figures : Int) (v : Value) : Except Fault Value := do
  if ← v.isZero then return .float 0.0
  if v.isNumber then
    let places := figures - (← ceiling (← logSize v))
    if mostPlaces < places then return .float 0.0 else roundReal places v
  else throw .unsupported

/-- A value rounded to `figures` significant figures. -/
def significant (figures : Int) (v : Value) : Except Fault Value := do
  if figures < 1 then throw .figuresNotPositive
  if v.isComplex then
    makeComplex (← figuresReal figures v.realPart) (← figuresReal figures v.imagPart)
  else figuresReal figures v.tidy

end ExactRoots.Value
