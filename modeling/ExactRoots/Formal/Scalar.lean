import ExactRoots.Binary64.Nearest
import ExactRoots.Formal.Approximation

/-!
# Scalars

The real numbers inside a formal expression: exact rationals, numbers rounded
to so many binary digits, the two infinities, and what is undefined.  A rounded
number makes every number that it meets a rounded one, of the larger count of
digits, and each operation rounds once.  A rounded result that is zero is the
exact zero.
-/

namespace ExactRoots

/-- A real number inside a formal expression. -/
inductive Scalar where
  | exact (q : Rat)
  | rounded (q : Rat) (bits : Nat)
  | infinite (negative : Bool)
  | undefined
  deriving DecidableEq, Repr

namespace Scalar

/-- A rational rounded to `bits` binary digits, kept as a rounded number also
when it is zero. -/
def literal (bits : Nat) (q : Rat) : Scalar :=
  .rounded (Precision.round .nearest bits q) bits

/-- The result of a rounded operation. -/
def settle (bits : Nat) (q : Rat) : Scalar :=
  if q = 0 then .exact 0 else literal bits q

/-- The number of binary digits of a double. -/
def doubleBits : Nat := 53

/-- A double as a scalar. -/
def ofFloat (x : Float) : Scalar :=
  match Binary64.toRat? x with
  | some q => .rounded q doubleBits
  | none => if x.isNaN then .undefined else .infinite (Binary64.isNegative x)

/-- The rational that a finite scalar stands for. -/
def value? : Scalar → Option Rat
  | .exact q | .rounded q _ => some q
  | .infinite _ | .undefined => none

/-- Whether a scalar is zero, exact or rounded. -/
def isZero (c : Scalar) : Bool := c.value? == some 0

/-- Whether a scalar is below zero. -/
def isNegative : Scalar → Bool
  | .exact q | .rounded q _ => q < 0
  | .infinite negative => negative
  | .undefined => false

/-- Whether a scalar is finite. -/
def isFinite (c : Scalar) : Bool := c.value?.isSome

/-- Apply an operation to finite numbers: exactly to exact ones, and otherwise
rounded once, after an exact operand has been rounded itself. -/
def combine (op : Rat → Rat → Rat) : Scalar → Scalar → Scalar
  | .exact p, .exact q => .exact (op p q)
  | .rounded p m, .rounded q n => settle (max m n) (op p q)
  | .rounded p m, .exact q => settle m (op p (Precision.round .nearest m q))
  | .exact p, .rounded q n => settle n (op (Precision.round .nearest n p) q)
  | _, _ => .undefined

/-- The sum. -/
def add : Scalar → Scalar → Scalar
  | .undefined, _ | _, .undefined => .undefined
  | .infinite s, .infinite t => if s = t then .infinite s else .undefined
  | .infinite s, _ | _, .infinite s => .infinite s
  | a, b => combine (· + ·) a b

/-- The negative. -/
def neg : Scalar → Scalar
  | .exact q => .exact (-q)
  | .rounded q bits => .rounded (-q) bits
  | .infinite negative => .infinite !negative
  | .undefined => .undefined

/-- The product. -/
def mul (a b : Scalar) : Scalar :=
  match a, b with
  | .undefined, _ | _, .undefined => .undefined
  | .infinite _, _ | _, .infinite _ =>
    if a.isZero || b.isZero then .undefined else .infinite (a.isNegative != b.isNegative)
  | a, b => combine (· * ·) a b

/-- The most binary places above or below the point that a rounded power may
reach. -/
def widestExponent : Int := 1048576

/-- A rounded number to an integer power.  One that is out of all proportion is
replaced by a power of two that is so as well. -/
def roundedPower (q : Rat) (bits : Nat) (n : Int) : Scalar :=
  let top := Precision.topExponent q * n
  let negative := q < 0 ∧ n % 2 ≠ 0
  if widestExponent < top then .rounded (Precision.scaled negative 1 widestExponent) bits
  else if top < -widestExponent then .rounded (Precision.scaled negative 1 (-widestExponent)) bits
  else settle bits (Precision.powerInt .nearest bits q n)

/-- A scalar to a nonzero integer power; none of zero to a negative one. -/
def powInt? (c : Scalar) (n : Int) : Option Scalar :=
  match c with
  | .exact q =>
    if 0 ≤ n then some (.exact (Rat.pow q n.toNat))
    else if q = 0 then none else some (.exact (1 / Rat.pow q n.natAbs))
  | .rounded q bits =>
    if q = 0 then (if 0 ≤ n then some c else none) else some (roundedPower q bits n)
  | .infinite negative =>
    some (if n < 0 then .exact 0 else .infinite (negative && n % 2 ≠ 0))
  | .undefined => some .undefined

/-- A positive rounded number to a real exponent.  A half-integral one goes
through the root, any other through the logarithm. -/
def realPower (rule : RoundingRule) (bits : Nat) (base exponent : Rat) : Rat :=
  if exponent.den = 1 then Precision.powerInt rule bits base exponent.num
  else if exponent.den = 2 then
    let root := Precision.root rule
    if exponent = mkRat 1 2 then root bits base
    else if exponent = mkRat (-1) 2 then Precision.round rule bits (1 / root (bits + 10) base)
    else Precision.powerInt rule bits (root (bits + 10) base) exponent.num
  else Precision.round rule bits (Approximation.power base exponent)

/-- A scalar as a double. -/
def toFloat : Scalar → Float
  | .exact q => Binary64.ofRat q
  | .rounded q _ => Binary64.ofRat (Precision.round .nearest doubleBits q)
  | .infinite negative => Binary64.ofPattern negative Binary64.infinityPattern
  | .undefined => Binary64.nan

end Scalar

end ExactRoots
