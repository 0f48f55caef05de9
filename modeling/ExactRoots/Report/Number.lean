import ExactRoots.Coefficients.Basic
import ExactRoots.Entry

/-!
# Written numbers and polynomials

How results are written for a reader: numbers with at most twelve decimals and
no trailing zeros, fractions as `a/b`, complex numbers as `a + bi`, and
polynomials as sums of powers of `x`.  Numbers with too many digits to write
are refused.
-/

namespace ExactRoots

namespace Report

/-- The most decimals of a written double. -/
def mostDecimals : Nat := 12

/-- How near to an integer a double is written as one. -/
def nearInteger : Float := 1e-12

/-- Decimals without zeros at the end, nor a point. -/
def trimZeros (cs : List Char) : List Char :=
  ((cs.reverse.dropWhile (· == '0')).dropWhile (· == '.')).reverse

/-- A double: an integer when it is very near one. -/
def writeFloat (x : Float) : Except Fault String :=
  match Binary64.dyadic? x with
  | none => .error (if x.isNaN then .malformed else .overflow)
  | some d =>
    let nearest := d.nearestInt
    if (x - Binary64.ofInt nearest).abs < nearInteger then writeInt nearest
    else .ok (String.ofList (trimZeros (Binary64.fixedText d mostDecimals).toList))

/-- A real value. -/
def writeReal : Value → Except Fault String
  | .inexact (.real x) => writeFloat x
  | v => v.display

/-- The size of a real value. -/
def realSize : Value → Value
  | .int n => .int n.natAbs
  | .frac q => .frac q.abs
  | .inexact (.real x) => .float x.abs
  | v => v

/-- A value, in the form `a + bi` when it is complex.  A factor one is not
written before `i`, nor is a real part of zero. -/
def writeNumber (v : Value) : Except Fault String := do
  let re := v.realPart
  let im := v.imagPart
  if ← im.isZero then writeReal re
  else
    let negative ← im.isBelowZero
    let size ← writeReal (realSize im)
    let size := if size = "1" then "" else size
    if ← re.isZero then return (if negative then "-" else "") ++ size ++ "i"
    else return (← writeReal re) ++ (if negative then " - " else " + ") ++ size ++ "i"

/-- An entry: a number, or a list as it stands in a sentence. -/
def writeEntry (e : Entry) : Except Fault String := do
  match ← e.simplify false with
  | .value v => writeNumber v
  | e => e.display

/-- A raised digit. -/
def raisedDigit (c : Char) : Char :=
  match c with
  | '0' => '⁰'
  | '1' => '¹'
  | '2' => '²'
  | '3' => '³'
  | '4' => '⁴'
  | '5' => '⁵'
  | '6' => '⁶'
  | '7' => '⁷'
  | '8' => '⁸'
  | '9' => '⁹'
  | c => c

/-- A power of the variable. -/
def writePower : Nat → String
  | 0 => ""
  | 1 => "x"
  | power => "x" ++ String.ofList ((toString power).toList.map raisedDigit)

/-- One term: the coefficient, in parentheses when it is a sum, and the power.
A factor one is not written before the variable. -/
def writeTerm (c : Value) (power : Nat) : Except Fault String := do
  let text ← writeNumber c
  let text := if text.contains ' ' then "(" ++ text ++ ")" else text
  let text :=
    if 0 < power ∧ text = "1" then "" else if 0 < power ∧ text = "-1" then "-" else text
  return text ++ writePower power

/-- The terms of a polynomial with nonzero coefficients, highest power
first. -/
def writeTerms : Coefficients → Except Fault (List String)
  | [] => .ok []
  | c :: cs => do
    if ← c.isZero then writeTerms cs
    else
      let term ← writeTerm c cs.length
      return term :: (← writeTerms cs)

/-- Put a term behind a sum; a sign before it becomes the sign between. -/
def joinTerm (sum term : String) : String :=
  match term.toList with
  | '-' :: rest => sum ++ " - " ++ String.ofList rest
  | _ => sum ++ " + " ++ term

/-- A polynomial as a sum of terms. -/
def writePolynomial (cs : Coefficients) : Except Fault String := do
  match ← writeTerms cs with
  | [] => return "0"
  | term :: terms => return terms.foldl joinTerm term

end Report

end ExactRoots
