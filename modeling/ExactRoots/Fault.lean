import ExactRoots.Inexact

/-!
# Faults

Everything that can go wrong, by cause.  Faults of the domain carry what their
message tells; faults of arithmetic have no message of their own.
-/

namespace ExactRoots

/-- Where a search stood when its budget ran out, with the counts of the budget as
they are written. -/
structure Stall where
  tolerance : Float
  loops : String
  iterations : String
  x : Inexact
  y : Inexact
  displacement : Float
  deriving DecidableEq

/-- Why a field was refused. -/
inductive FieldError where
  | notInteger
  | unreadableInteger
  | oversizedInteger
  | fractionalInteger
  | infiniteInteger
  | notNumber
  | unreadableNumber
  | notAbove
  | notAtLeast
  | notPair
  | tooLong
  | absent
  | unordered
  | notText
  | notList
  | notRecord
  deriving DecidableEq, Repr

/-- A refused field: the path to it and the reason. -/
structure Detail where
  path : List String
  error : FieldError
  deriving DecidableEq, Repr

/-- A cause of failure. -/
inductive Fault where
  /-- A symbol stands where a number is needed. -/
  | notNumeric (name : String)
  /-- The operand's kind has no square root. -/
  | noSquareRoot (kind shown : String)
  /-- Both leading coefficients of a quadratic are zero. -/
  | degenerateQuadratic (a b c : String)
  /-- The divisor has no nonzero coefficient. -/
  | zeroPolynomialDivisor
  /-- Roots of a constant were asked for. -/
  | constantPolynomial
  /-- A number was divided by zero. -/
  | zeroDivisor (numerator : String)
  /-- Fewer than one significant figure was asked for. -/
  | figuresNotPositive
  /-- The order of a derivative is not a positive integer. -/
  | orderNotPositive (shown : String)
  /-- A coefficient is not a number. -/
  | nonNumericCoefficient
  /-- A search ran out of its budget. -/
  | notConverged (stall : Stall)
  /-- Dividing out a root left as many coefficients as before. -/
  | degreeNotReduced (root : String) (left degree : Int)
  /-- Dividing out a root left a remainder above the limit. -/
  | remainderLeft (root remainder limit : String)
  /-- A coefficient text is blank. -/
  | blankCoefficient
  /-- No coefficient text was given. -/
  | noCoefficients
  /-- A coefficient text is not an expression. -/
  | unreadableCoefficient (text : String)
  /-- A coefficient text is an expression with unknowns. -/
  | symbolicCoefficient (text : String)
  /-- Settings or a request were refused. -/
  | invalid (details : List Detail)
  /-- A quotient with divisor zero. -/
  | divisionByZero
  /-- A finite result is too large for a double. -/
  | overflow
  /-- An operation does not take operands of these kinds. -/
  | unsupported
  /-- An operand has the right kind and no usable value. -/
  | malformed
  /-- A decimal operation has no value. -/
  | decimalInvalid
  /-- A decimal result is too large. -/
  | decimalOverflow
  /-- A decimal was divided by zero. -/
  | decimalDivisionByZero
  deriving DecidableEq

namespace Fault

/-- The message of a stalled search. -/
def stallMessage (s : Stall) : String :=
  "Failed to converge within " ++ Binary64.text s.tolerance ++ " after " ++ s.loops
    ++ " loops of " ++ s.iterations ++ " iterations with x=" ++ s.x.text
    ++ " y=" ++ s.y.text ++ " displacement=" ++ Binary64.text s.displacement

/-- The message of a fault of the domain; faults of arithmetic and refused
fields have none. -/
def message? : Fault → Option String
  | .notNumeric name => some ("Not a numeric value: " ++ name)
  | .noSquareRoot kind shown => some ("Cannot take the square root of " ++ kind ++ " " ++ shown)
  | .degenerateQuadratic a b c =>
    some ("A or B must be nonzero to solve " ++ a ++ "x² + " ++ b ++ "x + " ++ c
      ++ " = 0 (not a polynomial of degree 1 or 2).")
  | .zeroPolynomialDivisor => some "Cannot divide by the zero polynomial."
  | .constantPolynomial => some "A constant polynomial has no roots (degree must be at least 1)."
  | .zeroDivisor numerator => some ("division of " ++ numerator ++ " by zero")
  | .figuresNotPositive => some "Number of significant digits must be >= 1"
  | .orderNotPositive shown =>
    some ("Derivative order must be a positive integer, got " ++ shown)
  | .nonNumericCoefficient => some "All coefficients must be numeric"
  | .notConverged stall => some (stallMessage stall)
  | .degreeNotReduced root left degree =>
    some ("Dividing out root " ++ root ++ " left degree " ++ toString left
      ++ ", expected less than " ++ toString degree ++ ".")
  | .remainderLeft root remainder limit =>
    some ("Dividing out root " ++ root ++ " left remainder " ++ remainder
      ++ " (limit " ++ limit ++ ").")
  | .blankCoefficient => some "Coefficients cannot be empty."
  | .noCoefficients => some "Enter at least one coefficient."
  | .unreadableCoefficient text => some ("Could not parse coefficient: '" ++ text ++ "'.")
  | .symbolicCoefficient text => some ("Coefficient '" ++ text ++ "' is not a number.")
  | .invalid _ | .divisionByZero | .overflow | .unsupported | .malformed | .decimalInvalid
  | .decimalOverflow | .decimalDivisionByZero => none

/-- Whether a fault comes from a result too large or a divisor of zero, so that
a search takes the value to be missing and goes on. -/
def isArithmetic : Fault → Bool
  | .divisionByZero | .zeroDivisor _ | .overflow | .decimalDivisionByZero => true
  | _ => false

end Fault

end ExactRoots
