import ExactRoots.Value.Text

/-!
# Arithmetic on values

Every operation brings its operands to a common kind and then applies the rule
of that kind.  Exact operands stay exact; an integer or a fraction beside a
floating number becomes the nearest double, and an exact complex number there
makes an expression of both; decimals mix with integers only.  The rules of one
operation are a record, and `Rules.combine` is the promotion that all operations
share.
-/

namespace ExactRoots

/-- What an operation does on operands of one kind. -/
structure Rules where
  integers : Int → Int → Except Fault Value
  rationals : Rat → Rat → Except Fault Value
  gaussians : Gaussian → Gaussian → Except Fault Value
  decimals : Decimal → Decimal → Except DecimalSignal Decimal
  inexacts : Inexact → Inexact → Except Fault Value
  formals : Formal → Formal → Except Fault Value

/-- The fault that a decimal signal is. -/
def DecimalSignal.fault : DecimalSignal → Fault
  | .invalid => .decimalInvalid
  | .divisionByZero => .decimalDivisionByZero
  | .overflow => .decimalOverflow

/-- A decimal result as a value. -/
def Value.ofDecimal (result : Except DecimalSignal Decimal) : Except Fault Value :=
  match result with
  | .ok d => .ok (.decimal d)
  | .error signal => .error signal.fault

/-- The double nearest to a rational, which must not be too large for one. -/
def Inexact.ofRat (q : Rat) : Except Fault Inexact :=
  match Binary64.ofRat? q with
  | some x => .ok (.real x)
  | none => .error .overflow

/-- The double nearest to a decimal, infinite when it is too large.  A
signaling NaN has none. -/
def Decimal.toFloat? : Decimal → Option Float
  | .finite negative digits exponent => some (Binary64.ofScientific negative digits exponent)
  | .infinite negative => some (Binary64.ofPattern negative Binary64.infinityPattern)
  | .nan _ signaling _ => if signaling then none else some Binary64.nan

/-- A decimal as a scalar, rounded to the digits of a double. -/
def Scalar.ofDecimal (d : Decimal) : Scalar :=
  match d with
  | .infinite negative => .infinite negative
  | .nan .. => .undefined
  | .finite .. =>
    match d.toRat? with
    | some q => .literal doubleBits q
    | none => .undefined

/-- An inexact number as an expression. -/
def Formal.ofInexact : Inexact → Formal
  | .real x => .scalar (.ofFloat x)
  | .complex re im => add (.scalar (.ofFloat re)) (mul .unit (.scalar (.ofFloat im)))

namespace Value

/-- A number as an expression. -/
def formal? : Value → Option Formal
  | .int n => some (.rational n)
  | .frac q => some (.rational q)
  | .exact re im _ => some (.ofGaussian ⟨re, im⟩)
  | .decimal d => some (.scalar (.ofDecimal d))
  | .inexact x => some (.ofInexact x)
  | .formal e => some e
  | .text _ | .absent => none

/-- Whether a number makes an expression of what it stands beside. -/
def isFormal : Value → Bool
  | .exact .. | .formal _ => true
  | _ => false

/-- An exact complex number as an expression, so that products of it are not worked
out; any other value stays as it is. -/
def unsettled : Value → Value
  | .exact re im _ => .formal (.ofGaussian ⟨re, im⟩)
  | v => v

end Value

namespace Rules

/-- Apply an operation to two values: promote them, then follow the rule of
their common kind. -/
def combine (rules : Rules) : Value → Value → Except Fault Value
  | .int m, .int n => rules.integers m n
  | .int m, .frac q => rules.rationals m q
  | .frac p, .int n => rules.rationals p n
  | .frac p, .frac q => rules.rationals p q
  | .int m, .exact re im _ => rules.gaussians (.ofRat m) ⟨re, im⟩
  | .frac p, .exact re im _ => rules.gaussians (.ofRat p) ⟨re, im⟩
  | .exact re im _, .int n => rules.gaussians ⟨re, im⟩ (.ofRat n)
  | .exact re im _, .frac q => rules.gaussians ⟨re, im⟩ (.ofRat q)
  | .exact re im _, .exact re' im' _ => rules.gaussians ⟨re, im⟩ ⟨re', im'⟩
  | .decimal d, .decimal e => Value.ofDecimal (rules.decimals d e)
  | .decimal d, .int n => Value.ofDecimal (rules.decimals d (.ofInt n))
  | .int m, .decimal e => Value.ofDecimal (rules.decimals (.ofInt m) e)
  | .inexact x, .inexact y => rules.inexacts x y
  | .inexact x, .int n => do rules.inexacts x (← Inexact.ofRat n)
  | .inexact x, .frac q => do rules.inexacts x (← Inexact.ofRat q)
  | .int m, .inexact y => do rules.inexacts (← Inexact.ofRat m) y
  | .frac p, .inexact y => do rules.inexacts (← Inexact.ofRat p) y
  | a, b =>
    match a.formal?, b.formal? with
    | some d, some e =>
      if a.isFormal || b.isFormal then rules.formals d e else .error .unsupported
    | _, _ => .error .unsupported

end Rules

namespace Value

/-- An inexact result. -/
def ok (x : Inexact) : Except Fault Value := .ok (.inexact x)

/-- A result that is not worked out. -/
def okFormal (e : Formal) : Except Fault Value := .ok (.formal e)

/-- Addition. -/
def addRules : Rules where
  integers m n := .ok (.int (m + n))
  rationals p q := .ok (.frac (p + q))
  gaussians u v := .ok (ofGaussian (u + v))
  decimals := Decimal.add
  inexacts x y := ok (x.add y)
  formals d e := okFormal (d.add e)

/-- Subtraction. -/
def subRules : Rules where
  integers m n := .ok (.int (m - n))
  rationals p q := .ok (.frac (p - q))
  gaussians u v := .ok (ofGaussian (u - v))
  decimals := Decimal.sub
  inexacts x y := ok (x.sub y)
  formals d e := okFormal (d.sub e)

/-- Multiplication. -/
def mulRules : Rules where
  integers m n := .ok (.int (m * n))
  rationals p q := .ok (.frac (p * q))
  gaussians u v := .ok (ofGaussian (u * v))
  decimals := Decimal.mul
  inexacts x y := ok (x.mul y)
  formals d e := okFormal (d.mul e)

/-- The quotient of two integers as the nearest double. -/
def integerQuotient (m n : Int) : Except Fault Value :=
  if n = 0 then .error .divisionByZero
  else
    let x := Binary64.ofRatio ((m < 0) != (n < 0)) m.natAbs n.natAbs
    if x.isFinite then .ok (.float x) else .error .overflow

/-- The quotient of two inexact numbers. -/
def inexactQuotient (x y : Inexact) : Except Fault Value :=
  match x.div? y with
  | some z => ok z
  | none => .error .divisionByZero

/-- Division.  Integers divide as doubles, and an exact complex number divided by
zero has both parts undefined. -/
def divRules : Rules where
  integers := integerQuotient
  rationals p q := if q = 0 then .error .divisionByZero else .ok (.frac (p / q))
  gaussians u v :=
    if v = 0 then .ok (.complex Binary64.nan Binary64.nan) else .ok (ofGaussian (u / v))
  decimals := Decimal.div
  inexacts := inexactQuotient
  formals d e :=
    match d.div? e with
    | some quotient => okFormal quotient
    | none => .error .divisionByZero

/-- A text repeated; not at all for a count below one. -/
def repeatText (s : String) (count : Int) : Value :=
  .text (String.join (List.replicate count.toNat s))

/-- The sum.  Texts are put end to end. -/
def add : Value → Value → Except Fault Value
  | .text s, .text t => .ok (.text (s ++ t))
  | a, b => addRules.combine a b

/-- The difference. -/
def sub (a b : Value) : Except Fault Value := subRules.combine a b

/-- The product.  A text times an integer is repeated. -/
def mul : Value → Value → Except Fault Value
  | .text s, .int n => .ok (repeatText s n)
  | .int m, .text t => .ok (repeatText t m)
  | a, b => mulRules.combine a b

/-- The quotient. -/
def div (a b : Value) : Except Fault Value := divRules.combine a b

/-- The negative. -/
def neg : Value → Except Fault Value
  | .int n => .ok (.int (-n))
  | .frac q => .ok (.frac (-q))
  | .exact re im _ => .ok (ofGaussian ⟨-re, -im⟩)
  | .decimal d => ofDecimal d.neg
  | .inexact x => ok x.neg
  | .formal e => okFormal e.neg
  | .text _ | .absent => .error .unsupported

end Value

end ExactRoots
