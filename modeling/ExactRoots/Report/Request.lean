import ExactRoots.Report.Solution
import ExactRoots.Settings.Validation

/-!
# Requests and responses

Requests are read from untyped data, field by field, with every refused field
reported.  A response is the solution, or a status and what went wrong: 422 for
a search that ran out of its budget, 400 for a fault of the request, and 500
for anything else.
-/

namespace ExactRoots

namespace Report

open Expression (Parser)
open Settings (Reading refuse both)

/-- A text. -/
def readText (path : List String) (raw : Raw) : Reading String :=
  match raw with
  | .text s => .ok s
  | _ => refuse path .notText

/-- A field of a record that must be there. -/
def required {α : Type} (body : Raw) (name : String) (read : List String → Raw → Reading α) :
    Reading α :=
  match body.get? name with
  | none => refuse [name] .absent
  | some raw => read [name] raw

/-- The texts of a list, counted from `index` on. -/
def readItems (path : List String) (index : Nat) : List Raw → Reading (List String)
  | [] => .ok []
  | raw :: rest =>
    match both (readText (path ++ [toString index]) raw) (readItems path (index + 1) rest) with
    | .ok (first, others) => .ok (first :: others)
    | .error e => .error e

/-- A list of texts. -/
def readTexts (path : List String) (raw : Raw) : Reading (List String) :=
  match raw with
  | .list items => readItems path 0 items
  | _ => refuse path .notList

/-- Optional settings in a record of their own. -/
def readSettings (body : Raw) : Reading (Option Settings) :=
  match body.get? "options" with
  | none | some .null => .ok none
  | some (.record fields) =>
    match (Settings.read Raw.reader fields).under "options" with
    | .ok s => .ok (some s)
    | .error details => .error details
  | some _ => refuse ["options"] .notRecord

/-- What goes wrong with a request that was read. -/
structure Failure where
  status : Nat
  fault : Fault
  deriving DecidableEq

/-- The status that a fault answers with. -/
def status : Fault → Nat
  | .notConverged _ => 422
  | .notNumeric _ | .noSquareRoot .. | .degenerateQuadratic .. | .zeroPolynomialDivisor
  | .constantPolynomial | .zeroDivisor _ | .figuresNotPositive | .orderNotPositive _
  | .blankCoefficient | .noCoefficients | .unreadableCoefficient _ | .symbolicCoefficient _
  | .invalid _ | .divisionByZero | .malformed | .decimalDivisionByZero => 400
  | .nonNumericCoefficient | .degreeNotReduced .. | .remainderLeft .. | .overflow
  | .unsupported | .decimalInvalid | .decimalOverflow => 500

/-- What a failure tells, when its fault has a message. -/
def Failure.detail? (f : Failure) : Option String :=
  f.fault.message?.map fun message =>
    if f.status = 500 then "Solver error: " ++ message else message

/-- The answer to a request that was read. -/
def respond {α : Type} (result : Except Fault α) : Except Failure α :=
  match result with
  | .ok a => .ok a
  | .error fault => .error ⟨status fault, fault⟩

/-- The answer to a request for all roots. -/
def answerRoots (parse : Parser) (body : Raw) : Reading (Except Failure Solution) :=
  match both (required body "coefficients" readTexts) (readSettings body) with
  | .error e => .error e
  | .ok (texts, settings) => .ok (respond (solve parse (.ok (settings.getD {})) texts))

/-- The answer to a request for the roots of a quadratic. -/
def answerQuadratic (parse : Parser) (body : Raw) : Reading (Except Failure QuadraticSolution) :=
  match both (required body "a" readText) (both (required body "b" readText)
      (required body "c" readText)) with
  | .error e => .error e
  | .ok (a, b, c) => .ok (respond (solveQuadraticText parse a b c))

/-- The answer to a request for a quotient. -/
def answerDivide (parse : Parser) (body : Raw) : Reading (Except Failure DivisionSolution) :=
  match both (required body "dividend" readTexts) (required body "divisor" readTexts) with
  | .error e => .error e
  | .ok (dividend, divisor) => .ok (respond (divideText parse dividend divisor))

end Report

end ExactRoots
