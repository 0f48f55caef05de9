import ExactRoots.Deflation.Roots
import ExactRoots.Expression.Reader
import ExactRoots.Report.Number
import ExactRoots.Coefficients.Division

/-!
# Solutions step by step

The answers to three questions put in text: all roots of a polynomial with the
steps that led to them, the roots of a quadratic, and the quotient of two
polynomials.
-/

namespace ExactRoots

namespace Report

open Expression (Parser)

/-- One step of a solution. -/
structure Step where
  number : Nat
  description : String
  expression : String
  explanation : String
  deriving DecidableEq

/-- A solved polynomial. -/
structure Solution where
  polynomial : String
  degree : Nat
  roots : List String
  steps : List Step
  deriving DecidableEq

/-- What the solutions say of the program that made them. -/
def library : String := "polyroots (SymPy exact arithmetic, NumPy search)"

/-- Several texts with commas between. -/
def commaList (texts : List String) : String := ", ".intercalate texts

/-- The first step: the polynomial itself. -/
def openingStep (polynomial : String) (degree : Nat) : Step where
  number := 1
  description := "Starting with the polynomial"
  expression := polynomial ++ " = 0"
  explanation := "We are looking for every value of x that makes this degree-"
    ++ toString degree ++ " polynomial equal to zero."

/-- The step that divides out one root. -/
def deflationStep (number : Nat) (step : Deflation.Step) : Except Fault Step := do
  let root ← writeNumber step.root
  let quotient ← writePolynomial step.quotient
  let remainder ← step.remainder.mapM writeNumber
  return {
    number
    description := "Find a root and divide out (x - " ++ root ++ ")"
    expression := "x = " ++ root ++ "   →   " ++ quotient
    explanation := "An iterative search found the root x = " ++ root
      ++ ". Synthetic division by (x - " ++ root ++ ") leaves the quotient " ++ quotient
      ++ " with remainder " ++ commaList remainder ++ ", lowering the degree by one." }

/-- The steps that divide out roots, numbered from `number` on. -/
def deflationSteps (number : Nat) : List Deflation.Step → Except Fault (List Step)
  | [] => .ok []
  | step :: steps => do
    let first ← deflationStep number step
    return first :: (← deflationSteps (number + 1) steps)

/-- The formula that solves what is left of the given degree. -/
def closingFormula (degree : Nat) : String :=
  if degree = 2 then "quadratic formula" else "linear formula"

/-- The last step: the closed formula. -/
def closingStep (number degree : Nat) (roots : List String) : Step where
  number := number
  description := "Solve the rest with the " ++ closingFormula degree
  expression := commaList (roots.map ("x = " ++ ·))
  explanation := "Once the polynomial is down to degree " ++ toString degree ++ ", the "
    ++ closingFormula degree ++ " gives the remaining roots exactly where possible."

/-- All roots of a polynomial with the steps that led to them. -/
def solve (parse : Parser) (settings : Except Fault Settings) (texts : List String) :
    Except Fault Solution := do
  let cs ← Coefficients.stripZeros (← readCoefficients parse texts)
  let polynomial ← writePolynomial cs
  let degree := cs.length - 1
  let answer := Deflation.run (← settings) cs
  let middle ← deflationSteps 2 answer.steps
  let roots ← (← answer.roots).mapM writeNumber
  let closing := closingStep (middle.length + 2) (degree - middle.length) roots
  return { polynomial, degree, roots, steps := openingStep polynomial degree :: middle ++ [closing] }

/-- A solved quadratic. -/
structure QuadraticSolution where
  polynomial : String
  roots : List String
  deriving DecidableEq

/-- The roots of a quadratic. -/
def solveQuadraticText (parse : Parser) (a b c : String) : Except Fault QuadraticSolution := do
  let cs ← readCoefficients parse [a, b, c]
  let [p, q, r] := cs | throw .unsupported
  let found ← solveQuadratic p q r
  return { polynomial := ← writePolynomial cs, roots := ← found.mapM writeNumber }

/-- A quotient with its remainder. -/
structure DivisionSolution where
  quotient : List String
  remainder : List String
  quotientPolynomial : String
  remainderPolynomial : String
  deriving DecidableEq

/-- The quotient of two polynomials. -/
def divideText (parse : Parser) (dividend divisor : List String) :
    Except Fault DivisionSolution := do
  let p ← readCoefficients parse dividend
  let q ← readCoefficients parse divisor
  let d ← Coefficients.divide p q
  return {
    quotient := ← d.quotient.mapM writeNumber
    remainder := ← d.remainder.mapM writeNumber
    quotientPolynomial := ← writePolynomial d.quotient
    remainderPolynomial := ← writePolynomial d.remainder }

end Report

end ExactRoots
