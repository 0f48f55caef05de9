import ExactRoots.Coefficients.Basic

/-!
# Division with remainder

Long division on coefficient lists.  Each step closes the leading column by
dividing it by the leading coefficient of the divisor, and subtracts that
multiple of the divisor's other coefficients from the columns that follow.  On
exact coefficients the dividend is the divisor times the quotient plus the
remainder, exactly.
-/

namespace ExactRoots

/-- Quotient and remainder of a division. -/
structure Division where
  quotient : Coefficients
  remainder : Coefficients
  deriving DecidableEq

namespace Coefficients

/-- Subtract `q` times the divisor's lower coefficients from the columns that
follow a closed one. -/
def subtractMultiple (q : Value) : Coefficients → Coefficients → Except Fault Coefficients
  | d :: ds, c :: cs => do
    let product ← q.mul (← d.neg)
    let column := (← c.add product).simplest
    return column :: (← subtractMultiple q ds cs)
  | _, cs => .ok cs

/-- Close `steps` columns of a row, for a divisor with the given leading and
lower coefficients. -/
def divideRow (lead : Value) (lower : Coefficients) : Nat → Coefficients → Except Fault Division
  | steps + 1, c :: cs => do
    let q ← if ← lead.equals (.int 1) then pure c else c.quo lead
    let rest ← divideRow lead lower steps (← subtractMultiple q lower cs)
    return ⟨q :: rest.quotient, rest.remainder⟩
  | _, row => .ok ⟨[], row⟩

/-- Divide by a divisor whose first coefficient is not zero. -/
def divideBy (dividend : Coefficients) (lead : Value) (lower : Coefficients) :
    Except Fault Division :=
  if dividend.length ≤ lower.length then
    .ok ⟨[.int 0], if dividend.isEmpty then [.int 0] else dividend⟩
  else if lower.isEmpty then do
    return ⟨← dividend.mapM (·.quo lead), [.int 0]⟩
  else divideRow lead lower (dividend.length - lower.length) dividend

/-- Quotient and remainder of two coefficient lists.  Leading zeros of the
divisor are dropped; a divisor without a nonzero coefficient is refused. -/
def divide (dividend divisor : Coefficients) : Except Fault Division := do
  let dividend := dividend.simplest
  let divisor ← divisor.simplest.stripZeros
  let mixed ← Value.coerceDecimals (dividend ++ divisor)
  match mixed.drop dividend.length with
  | [] => throw .zeroPolynomialDivisor
  | lead :: lower => divideBy (mixed.take dividend.length) lead lower

end Coefficients

end ExactRoots
