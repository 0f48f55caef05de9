import ExactRoots.Decimal.Arithmetic
import ExactRoots.Fault
import ExactRoots.Formal.Evaluation

/-!
# Values

The kinds of number that the library computes with, from integers to floating
complex numbers, and two kinds that are not numbers: text and nothing at all.
A list of coefficients may hold those two; every operation that needs a number
refuses them.  An exact complex number beside a floating one makes an
expression, which is only worked out when it is simplified.

A value is in simplest form when `Value.simplify` leaves it alone: no
expression, no complex number with imaginary part zero, no fraction with
denominator one, and no double that is an integer.
-/

namespace ExactRoots

/-- A number of one of the supported kinds, or something that is not a number.
An exact complex number has a nonzero imaginary part. -/
inductive Value where
  | int (n : Int)
  | frac (q : Rat)
  | exact (re im : Rat) (im_ne_zero : im ≠ 0)
  | decimal (d : Decimal)
  | inexact (x : Inexact)
  | formal (e : Formal)
  | text (s : String)
  | absent
  deriving DecidableEq

namespace Value

/-- A double as a value. -/
@[match_pattern]
abbrev float (x : Float) : Value := .inexact (.real x)

/-- A floating complex number as a value. -/
@[match_pattern]
abbrev complex (re im : Float) : Value := .inexact (.complex re im)

/-- The simplest value of a rational. -/
def ofRat (q : Rat) : Value :=
  if q.den = 1 then .int q.num else .frac q

/-- The simplest value of a Gaussian rational. -/
def ofGaussian (u : Gaussian) : Value :=
  if h : u.im = 0 then ofRat u.re else .exact u.re u.im h

/-- The rational that an integer or a fraction denotes. -/
def rational? : Value → Option Rat
  | .int n => some n
  | .frac q => some q
  | _ => none

/-- The Gaussian rational that an exact value denotes. -/
def gaussian? : Value → Option Gaussian
  | .int n => some (.ofRat n)
  | .frac q => some (.ofRat q)
  | .exact re im _ => some ⟨re, im⟩
  | _ => none

/-- Simplifying a rational keeps the number that it denotes. -/
theorem gaussian?_ofRat (q : Rat) : (ofRat q).gaussian? = some (.ofRat q) := by
  unfold ofRat
  split
  next whole =>
    have number : (q.num : Rat) = q := Rat.ext rfl whole.symm
    simp [gaussian?, number]
  next => rfl

/-- Simplifying a Gaussian rational keeps the number that it denotes. -/
theorem gaussian?_ofGaussian (u : Gaussian) : (ofGaussian u).gaussian? = some u := by
  unfold ofGaussian
  split
  next real =>
    rw [gaussian?_ofRat]
    exact congrArg some (Gaussian.ext rfl real.symm)
  next => rfl

/-- The simplest value of a double: an integer if it is one and integers are
wanted in place of integral doubles. -/
def ofFloat (dropFloat : Bool) (x : Float) : Value :=
  if dropFloat then
    match Binary64.toInt? x with
    | some n => .int n
    | none => .float x
  else .float x

/-- The simplest value of the number that an expression amounts to. -/
def ofNumber (dropFloat : Bool) : Formal.Number → Value
  | .exact u => ofGaussian u
  | .inexact (.real x) => ofFloat dropFloat x
  | .inexact x => .inexact x

/-- The simplest form of a value.  A double that is an integer becomes one only
if `dropFloat` is set. -/
def simplify (dropFloat : Bool) : Value → Value
  | .frac q => ofRat q
  | .inexact (.real x) => ofFloat dropFloat x
  | .inexact (.complex re im) => if im == 0.0 then ofFloat dropFloat re else .complex re im
  | .formal e => ofNumber dropFloat e.number
  | v => v

/-- The simplest form, with integers in place of integral doubles. -/
def simplest (v : Value) : Value := simplify true v

/-- The simplest form that keeps doubles. -/
def tidy (v : Value) : Value := simplify false v

/-- The real part, in simplest form but for integral doubles. -/
def realPart (v : Value) : Value :=
  match v.tidy with
  | .complex re _ => .float re
  | .exact re _ _ => ofRat re
  | v => v

/-- The imaginary part, in simplest form but for integral doubles; the integer
zero for everything that is not complex. -/
def imagPart (v : Value) : Value :=
  match v.tidy with
  | .complex _ im => .float im
  | .exact _ im _ => ofRat im
  | _ => .int 0

/-- Whether a value is an integer, a fraction or an exact complex number. -/
def isExact (v : Value) : Bool :=
  match v.tidy with
  | .int _ | .frac _ | .exact .. => true
  | _ => false

/-- Whether a value has a nonzero imaginary part. -/
def isComplex (v : Value) : Bool :=
  match v.tidy with
  | .complex .. | .exact .. => true
  | _ => false

/-- Whether a value is a decimal. -/
def isDecimal : Value → Bool
  | .decimal _ => true
  | _ => false

/-- Whether a value is a number of any kind. -/
def isNumber : Value → Bool
  | .text _ | .absent => false
  | _ => true

end Value

end ExactRoots
