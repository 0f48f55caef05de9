import ExactRoots.Deflation.Roots
import ExactRoots.Entry
import ExactRoots.Value.Fingerprint

/-!
# Polynomials

Polynomials in one variable as values: built from any numbers, kept without
leading zeros and in simplest form, evaluated, differentiated, divided, rounded
and compared.  The empty polynomial is zero everywhere.
-/

namespace ExactRoots

/-- A polynomial by its coefficients from the highest power down. -/
structure Poly where
  coefficients : Coefficients
  deriving DecidableEq

namespace Poly

/-- The zero polynomial. -/
def zero : Poly := ⟨[]⟩

/-- The polynomial with the given coefficients, each in simplest form and
without leading zeros. -/
def ofCoefficients (cs : Coefficients) : Except Fault Poly := do
  return ⟨← cs.simplest.stripZeros⟩

/-- Whether an entry may stand for a coefficient. -/
def isCoefficient : Entry → Bool
  | .value v => v.isNumber
  | .flag _ | .symbol _ => true
  | .list _ | .array _ => false

/-- The polynomial with the given entries as coefficients. -/
def ofList (items : List Entry) : Except Fault Poly := do
  if items.all isCoefficient then ofCoefficients (← items.mapM Entry.toValue)
  else throw .nonNumericCoefficient

/-- The polynomial for a list of arguments: a single list holds the
coefficients, and otherwise the arguments themselves are the coefficients. -/
def ofArguments : List Entry → Except Fault Poly
  | [.list items] => ofList items
  | items => ofList items

/-- The degree; zero for the zero polynomial. -/
def degree (p : Poly) : Nat := p.coefficients.length - 1

/-- The value at a point. -/
def eval (p : Poly) (x : Value) : Except Fault Value := p.coefficients.evaluate x

/-- The product of a coefficient with `count` descending factors from
`factor` on. -/
def fallingProduct (c : Value) (factor : Int) : Nat → Except Fault Value
  | 0 => .ok c
  | count + 1 => do fallingProduct (← c.mul (.int factor)) (factor - 1) count

/-- The coefficients of a derivative of order `order` from those of the powers
`power` and below. -/
def differentiate (order : Nat) : (power : Int) → Coefficients → Except Fault Coefficients
  | _, [] => .ok []
  | power, c :: cs => do
    let first ← fallingProduct c power order
    return first :: (← differentiate order (power - 1) cs)

/-- How many leading coefficients the derivative of order `order` takes up.  For
an order above their number the count runs backwards from the end. -/
def leadingCount (length order : Nat) : Nat :=
  if order ≤ length then length - order else length - (order - length)

/-- The derivative of order `order`. -/
def derivative (order : Nat) (p : Poly) : Except Fault Poly := do
  let leading := p.coefficients.take (leadingCount p.coefficients.length order)
  ofCoefficients (← differentiate order p.degree leading)

/-- Quotient and remainder. -/
def divMod (p q : Poly) : Except Fault (Poly × Poly) := do
  let d ← p.coefficients.divide q.coefficients
  return (← ofCoefficients d.quotient, ← ofCoefficients d.remainder)

/-- Every coefficient divided by a number. -/
def scaleDown (p : Poly) (divisor : Entry) : Except Fault Poly := do
  ofCoefficients (← p.coefficients.mapM fun c => Entry.quo (.value c) divisor)

/-- All roots. -/
def roots (s : Settings) (p : Poly) : Except Fault (List Value) := p.coefficients.roots s

/-- Every coefficient rounded to `places` decimals. -/
def round (places : Int) (p : Poly) : Except Fault Poly := do
  ofCoefficients (← p.coefficients.mapM (Value.round places))

/-- Every coefficient rounded to `figures` significant figures. -/
def significant (figures : Int) (p : Poly) : Except Fault Poly := do
  if figures < 1 then throw .figuresNotPositive
  ofCoefficients (← p.coefficients.mapM (Value.significant figures))

/-- Every coefficient as an inexact number, not simplified. -/
def toInexact (p : Poly) : Except Fault Poly := do
  return ⟨← p.coefficients.mapM fun c => c.toInexact.map .inexact⟩

/-- Whether two polynomials have equal coefficients. -/
def equals (p q : Poly) : Except Fault Bool :=
  Value.listEquals p.coefficients q.coefficients

/-- Whether the fingerprints of two polynomials agree. -/
def sameFingerprint (p q : Poly) : Bool :=
  Value.fingerprintsAgree p.coefficients q.coefficients

/-- The written form. -/
def text (p : Poly) : Except Fault String := do
  return "Polynomial(" ++ ", ".intercalate (← p.coefficients.mapM Value.shown) ++ ")"

end Poly

end ExactRoots
