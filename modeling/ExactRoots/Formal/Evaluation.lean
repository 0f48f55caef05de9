import ExactRoots.Formal.Parts
import ExactRoots.Inexact

/-!
# Numbers of expressions

A real expression is evaluated to a few more binary digits than a double has, and
then rounded to the nearest double.  Every operation on the way is taken to a
number of digits of its own: terms of sums and factors of products to some more
than the result, which is rounded to nearest; constants, powers and roots cut
toward zero.  An expression whose parts are rational amounts to a Gaussian rational,
and any other to a double or to a floating complex number.
-/

namespace ExactRoots.Formal

/-- The digits that an evaluation starts with. -/
def evaluationBits : Nat := 57

/-- An approximation to so many digits, cut toward zero. -/
def cutApproximation (bits : Nat) (e : Formal) : Rat :=
  Precision.round .towardZero bits e.approximateReal

/-- The sum of evaluated terms, unless more of their digits cancel than they have
to spare. -/
def evaluateTerms (bits : Nat) (e : Formal) (values : List Rat) : Rat :=
  let total := values.foldl (· + ·) 0
  let top := (values.filter (· ≠ 0)).foldl (fun top q => max top (Precision.topExponent q))
    (Precision.topExponent total)
  if total = 0 ∨ Precision.topExponent total < top - 8 then
    Precision.round .nearest bits e.approximateReal
  else Precision.round .nearest bits total

/-- A power of a real number, with `value` for smaller expressions. -/
def evaluateRealPower (value : Nat → Formal → Rat) (bits : Nat) (base exponent : Formal) :
    Rat :=
  match exponent.integer? with
  | some n =>
    let inner := value (bits + n.natAbs.log2 + 5) base
    if inner = 0 then 0 else Precision.powerInt .towardZero bits inner n
  | none =>
    if base.isPositive && exponent.isReal then
      if exponent = half then Precision.root .towardZero bits (value (bits + 5) base)
      else Scalar.realPower .towardZero bits (value (bits + 15) base) (value (bits + 10) exponent)
    else cutApproximation bits (.power base exponent)

/-- The value of a real expression of limited depth to `bits` binary digits. -/
def evaluateWithin : (fuel : Nat) → (bits : Nat) → Formal → Rat
  | 0, bits, e => cutApproximation bits e
  | fuel + 1, bits, e =>
    match e with
    | .scalar (.exact q) => Precision.round .towardZero bits q
    | .scalar (.rounded q _) => q
    | .node .sum ts => evaluateTerms bits e (ts.map (evaluateWithin fuel (bits + 10)))
    | .node .product fs =>
      let values := fs.map (evaluateWithin fuel (bits + fs.length + 5))
      Precision.round .nearest bits (values.foldl (· * ·) 1)
    | .power base exponent => evaluateRealPower (evaluateWithin fuel) bits base exponent
    | .node .cosine _ | .node .sine _ | .node .arctangent _ =>
      Precision.round .nearest bits e.approximateReal
    | e => cutApproximation bits e

/-- The double of a real expression; not a number for what denotes none. -/
def toFloat (e : Formal) : Float :=
  match e with
  | .scalar c => c.toFloat
  | e =>
    match e.approximate? with
    | none => Binary64.nan
    | some u =>
      if u.re = 0 then 0.0
      else
        Binary64.ofRat (Precision.round .nearest Scalar.doubleBits
          (evaluateWithin e.depth evaluationBits e))

/-- What an expression amounts to. -/
inductive Number where
  | exact (u : Gaussian)
  | inexact (x : Inexact)

/-- The number that an expression amounts to.  An imaginary part that denotes zero
is dropped. -/
def number (e : Formal) : Number :=
  let parts := e.parts
  if parts.im.isZero then
    match parts.re.rational? with
    | some q => .exact (.ofRat q)
    | none => .inexact (.real parts.re.toFloat)
  else
    match parts.re.rational?, parts.im.rational? with
    | some re, some im => .exact ⟨re, im⟩
    | _, _ => .inexact (.complex parts.re.toFloat parts.im.toFloat)

end ExactRoots.Formal
