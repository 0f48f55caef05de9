import ExactRoots.Formal.Power

/-!
# Arithmetic on expressions

Sums, products and powers evaluate each other's parts to a fixed depth, which no
expression comes near to.  Division multiplies by the inverse; only a rounded
number divided by a rounded zero has no quotient.
-/

namespace ExactRoots.Formal

/-- The operations that evaluate to the given depth. -/
def operations : (depth : Nat) → Operations
  | 0 => .unevaluated
  | depth + 1 =>
    let inner := operations depth
    ⟨collectSum inner, collectProduct inner, evaluatePower inner⟩

/-- The operations on expressions. -/
def arithmetic : Operations := operations 64

/-- The sum. -/
def add (a b : Formal) : Formal := arithmetic.plus a b

/-- The product. -/
def mul (a b : Formal) : Formal := arithmetic.times a b

/-- The negative. -/
def neg (a : Formal) : Formal := arithmetic.negative a

/-- The difference. -/
def sub (a b : Formal) : Formal := add a (neg b)

/-- The power. -/
def pow (a b : Formal) : Formal := arithmetic.power a b

/-- The principal square root. -/
def sqrt (a : Formal) : Formal := pow a half

/-- The product with the inverse. -/
def timesInverse (a b : Formal) : Formal :=
  let inverse := pow b minusOne
  if a = one then inverse else mul a inverse

/-- The quotient, unless a rounded number is divided by a rounded zero. -/
def div? (a b : Formal) : Option Formal :=
  match a, b with
  | .scalar (.rounded p m), .scalar (.rounded q n) =>
    if q = 0 then none else some (.scalar (.settle (max m n) (p / q)))
  | .scalar (.rounded p m), .scalar (.exact q) =>
    if q = 0 then some (timesInverse a b)
    else some (.scalar (.settle m (p / Precision.round .nearest m q)))
  | a, b => some (timesInverse a b)

end ExactRoots.Formal
