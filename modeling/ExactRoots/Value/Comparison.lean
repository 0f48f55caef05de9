import ExactRoots.Value.Arithmetic

/-!
# Comparing values

Equality of values of different kinds is equality of the numbers that they
denote, decided without rounding.  Exact complex numbers equal only each other,
and so do expressions that are not worked out.  NaN equals nothing, and a
signaling NaN may not be compared at all.
-/

namespace ExactRoots

/-- What a real value denotes. -/
inductive Standing where
  | finite (q : Rat)
  | infinite (negative : Bool)
  | undefined
  deriving DecidableEq

/-- What a double denotes. -/
def Standing.ofFloat (x : Float) : Standing :=
  match Binary64.toRat? x with
  | some q => .finite q
  | none => if x.isNaN then .undefined else .infinite (Binary64.isNegative x)

/-- What a decimal denotes. -/
def Standing.ofDecimal (d : Decimal) : Standing :=
  match d with
  | .infinite negative => .infinite negative
  | .nan .. => .undefined
  | .finite .. =>
    match d.toRat? with
    | some q => .finite q
    | none => .undefined

/-- Whether two real values denote the same number. -/
def Standing.agree : Standing → Standing → Bool
  | .finite p, .finite q => p == q
  | .infinite s, .infinite t => s == t
  | _, _ => false

namespace Value

/-- What a value without imaginary part denotes. -/
def standing : Value → Standing
  | .int n => .finite n
  | .frac q => .finite q
  | .decimal d => .ofDecimal d
  | .inexact (.real x) => .ofFloat x
  | .inexact (.complex re im) => if im == 0.0 then .ofFloat re else .undefined
  | .exact .. | .formal _ | .text _ | .absent => .undefined

/-- Whether a value is a decimal NaN that signals. -/
def signals : Value → Bool
  | .decimal d => d.isSignaling
  | _ => false

/-- Numerical equality. -/
def equals : Value → Value → Except Fault Bool
  | .exact re im _, .exact re' im' _ => .ok (re == re' && im == im')
  | .formal d, .formal e => .ok (d == e)
  | .exact .., _ | _, .exact .. | .formal _, _ | _, .formal _ => .ok false
  | .text s, .text t => .ok (s == t)
  | .absent, .absent => .ok true
  | .text _, _ | _, .text _ | .absent, _ | _, .absent => .ok false
  | .inexact x, .inexact y => .ok (x.beq y)
  | a, b =>
    if a.signals || b.signals then .error .decimalInvalid
    else .ok (a.standing.agree b.standing)

/-- Whether a value is zero. -/
def isZero : Value → Except Fault Bool
  | .int n => .ok (n == 0)
  | .frac q => .ok (q == 0)
  | .inexact x => .ok x.isZero
  | .decimal d => if d.isSignaling then .error .decimalInvalid else .ok d.isZero
  | .formal e => .ok (e == .zero)
  | .exact .. | .text _ | .absent => .ok false

/-- Whether a real value is below zero. -/
def isBelowZero : Value → Except Fault Bool
  | .int n => .ok (n < 0)
  | .frac q => .ok (q < 0)
  | .inexact (.real x) => .ok (x < 0.0)
  | .decimal d => if d.isNaN then .error .decimalInvalid else .ok d.isBelowZero
  | .inexact (.complex ..) | .exact .. | .formal _ | .text _ | .absent => .error .unsupported

/-- Equality of lists of values, entry by entry. -/
def listEquals : List Value → List Value → Except Fault Bool
  | [], [] => .ok true
  | a :: as, b :: bs => do
    if ← equals a b then listEquals as bs else .ok false
  | _, _ => .ok false

end Value

end ExactRoots
