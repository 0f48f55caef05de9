import ExactRoots.Coefficients.Quadratic
import ExactRoots.Deflation.Check
import ExactRoots.Deflation.Snap
import ExactRoots.Search.Solve

/-!
# All roots of a polynomial

One root at a time is found, snapped and divided out, until the rest is of
degree two or less and is solved in closed form.  The roots are sorted by real
and then imaginary part.
-/

namespace ExactRoots

namespace Deflation

/-- One root divided out. -/
structure Step where
  root : Value
  quotient : Coefficients
  remainder : Coefficients
  deriving DecidableEq

/-- Where every search starts: off the real axis, so that complex roots of real
polynomials can be reached. -/
def seedPoint : Inexact := .complex 0.6 0.8

/-- Find, snap and divide out one root. -/
def findStep (s : Settings) (exact : Bool) (current : Coefficients) : Except Fault Step := do
  let smooth ← current.mapM fun c => c.toInexact.map .inexact
  let found ← findOneRoot s (Coefficients.horner smooth) 0 (.inexact seedPoint)
  let root ← snapRoot s current exact found
  let divided ← current.divide [.int 1, (← root.neg).simplest]
  return ⟨root, divided.quotient, divided.remainder⟩

/-- The steps of a deflation, and the polynomial that is left or the fault that
ended it. -/
structure Trace where
  steps : List Step
  rest : Except Fault Coefficients

/-- Divide out roots until at most three coefficients are left. -/
def deflate (s : Settings) (exact : Bool) (current : Coefficients) : Trace :=
  if current.length ≤ 3 then ⟨[], .ok current⟩
  else
    match findStep s exact current with
    | .error fault => ⟨[], .error fault⟩
    | .ok step =>
      match check s current step.quotient step.remainder step.root with
      | .error fault => ⟨[], .error fault⟩
      | .ok ⟨_⟩ =>
        let trace := deflate s exact step.quotient
        ⟨step :: trace.steps, trace.rest⟩
termination_by current.length

/-- The roots of a polynomial with two or three coefficients. -/
def closing (current : Coefficients) : Except Fault (List Value) :=
  match current with
  | [a, b, c] => solveQuadratic a b c
  | [a, b] => do return [← (← b.neg).quo a]
  | _ => .error .unsupported

/-- The sort key of a root: its parts as doubles. -/
def sortKey (v : Value) : Except Fault (Float × Float) := do
  let re ← v.realPart.toFloat
  let im ← v.imagPart.toFloat
  return (re, im)

/-- Lexicographic order of keys. -/
def keyLess (a b : Float × Float) : Bool :=
  if a.1 == b.1 then a.2 < b.2 else a.1 < b.1

/-- Roots sorted by real and then imaginary part; equal ones keep their
order. -/
def sortRoots (found : List Value) : Except Fault (List Value) := do
  let keyed ← found.mapM fun v => do return (← sortKey v, v)
  return (keyed.mergeSort fun a b => !keyLess b.1 a.1).map (·.2)

/-- The polynomial that deflation starts from: in simplest form, without
leading zeros, and without decimals, which the search cannot take. -/
def prepare (cs : Coefficients) : Except Fault Coefficients := do
  let current ← cs.simplest.stripZeros
  if current.length ≤ 1 then throw .constantPolynomial
  if current.any Value.isDecimal then current.mapM fun c => c.toInexact.map .inexact
  else return current

/-- The steps of finding all roots, and the roots or the fault. -/
structure Answer where
  steps : List Step
  roots : Except Fault (List Value)

/-- All roots of a polynomial, one for each degree, with the steps that found
them. -/
def run (s : Settings) (cs : Coefficients) : Answer :=
  match prepare cs with
  | .error fault => ⟨[], .error fault⟩
  | .ok current =>
    let trace := deflate s (current.all Value.isExact) current
    ⟨trace.steps, do
      let last ← trace.rest
      sortRoots (trace.steps.map (·.root) ++ (← closing last))⟩

end Deflation

/-- All roots of a polynomial, sorted by real and then imaginary part. -/
def Coefficients.roots (s : Settings) (cs : Coefficients) : Except Fault (List Value) :=
  (Deflation.run s cs).roots

end ExactRoots
