import ExactRoots.Coefficients.Basic

/-!
# Closed formulas

The roots of polynomials of degree one and two.  Exact coefficients give exact
roots whenever the discriminant is a square.
-/

namespace ExactRoots

/-- The discriminant of `a * x ^ 2 + b * x + c`. -/
def discriminant (a b c : Value) : Except Fault Value := do
  let square ← b.mul b
  let product ← (← (Value.int 4).mul a).mul c
  return (← square.sub product).simplest

/-- The two roots of a quadratic from a root of its discriminant. -/
def quadraticFormula (a b root : Value) : Except Fault Coefficients := do
  let double := (← (Value.int 2).mul a).simplest
  let first ← ((← (← b.neg).add root).simplest).quo double
  let second ← ((← (← b.neg).sub root).simplest).quo double
  return [first, second]

/-- The roots of `a * x ^ 2 + b * x + c`, or of the linear equation when `a` is
zero.  Decimals beside other kinds, and beside complex roots, become
inexact. -/
def solveQuadratic (a b c : Value) : Except Fault (List Value) := do
  let [a, b, c] ← Value.coerceDecimals [a.simplest, b.simplest, c.simplest]
    | throw .unsupported
  if ← a.isZero then
    if ← b.isZero then
      throw (.degenerateQuadratic (← a.display) (← b.display) (← c.display))
    else return [← (← c.neg).quo b]
  else
    let root ← (← discriminant a b c).sqrt
    if root.isComplex then
      let [a, b, root] ← Value.coerceDecimals [a, b, root]
        | throw .unsupported
      quadraticFormula a b root
    else quadraticFormula a b root

end ExactRoots
