import ExactRoots.Coefficients.Basic
import ExactRoots.Settings.Basic
import ExactRoots.Value.Recovery
import ExactRoots.Value.Rounding

/-!
# Snapping a root

A root that a search found is replaced by a simpler value that fits the
polynomial at least as well: a fraction of bounded denominator when the
polynomial is exact, and a value rounded to fewer decimals otherwise.
-/

namespace ExactRoots.Deflation

/-- The size of a polynomial's value at a point. -/
def residual (cs : Coefficients) (x : Value) : Except Fault Float := do
  (← cs.evaluate x).magnitude

/-- The simpler values that may take the place of a root. -/
def candidates (s : Settings) (exact : Bool) (root : Value) : Except Fault (List Value) := do
  if exact then
    let recovered ← root.recover s.maxDenominator s.snapDigits
    let nearest ← root.nearestRational s.maxDenominator
    return [recovered, nearest].filter Value.isExact
  else
    let rounded ← (← root.round s.snapDigits).toInexact
    return [(Value.inexact rounded).simplest]

/-- The best replacement so far, with its residual, and whether it is one. -/
structure Choice where
  value : Value
  size : Float
  replaced : Bool

/-- Take a candidate with a smaller residual; the root itself also gives way to
one with an equal residual. -/
def Choice.offer (c : Choice) (candidate : Value) (size : Float) : Choice :=
  if size < c.size || (size ≤ c.size && !c.replaced) then ⟨candidate, size, true⟩ else c

/-- Offer every candidate in turn. -/
def choose (cs : Coefficients) (c : Choice) : List Value → Except Fault Choice
  | [] => .ok c
  | candidate :: rest => do choose cs (c.offer candidate (← residual cs candidate)) rest

/-- The simplest value that fits the polynomial at least as well as a root. -/
def snapRoot (s : Settings) (cs : Coefficients) (exact : Bool) (root : Value) :
    Except Fault Value := do
  let baseline ← residual cs root
  return (← choose cs ⟨root, baseline, false⟩ (← candidates s exact root)).value

end ExactRoots.Deflation
