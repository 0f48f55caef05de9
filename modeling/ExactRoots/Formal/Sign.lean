import ExactRoots.Formal.Basic

/-!
# Signs of expressions

An expression without unknowns denotes a complex number.  Its approximation to
many digits tells whether it is real, and on which side of zero it lies.
-/

namespace ExactRoots

open Approximation (Point)

/-- Where a number lies in the complex plane. -/
inductive Sign where
  | zero
  | positive
  | negative
  | imaginary
  | oblique
  deriving DecidableEq, Repr

/-- Where the number with the given parts lies. -/
def Sign.ofParts (re im : Rat) : Sign :=
  if im = 0 then
    if re = 0 then .zero else if re < 0 then .negative else .positive
  else if re = 0 then .imaginary
  else .oblique

/-- A part of an approximated number, or zero if it is beyond the digits of an
approximation beside the other part. -/
def settledPart (part : Rat) (u : Point) : Rat :=
  if part.abs ≤ (u.re.abs + u.im.abs) * mkRat 1 (Nat.pow 2 200) then 0 else part

/-- Where an approximated number lies. -/
def Sign.ofPoint (u : Point) : Sign := .ofParts (settledPart u.re u) (settledPart u.im u)

namespace Formal

/-- The approximation of an atom. -/
def approximateAtom? : Atom → Option Point
  | .scalar c => c.value?.map fun q => ⟨q, 0⟩
  | .unit => some ⟨0, 1⟩
  | .circle => some ⟨Approximation.circleConstant, 0⟩
  | .euler => some ⟨Approximation.eulerConstant, 0⟩
  | .pole | .letter _ => none

/-- What an operator makes of approximated arguments. -/
def applyOperator? (op : Operator) (us : List Point) : Option Point :=
  match op, us with
  | .sum, us => some (us.foldl Point.add ⟨0, 0⟩)
  | .product, us => some (us.foldl Point.mul ⟨1, 0⟩)
  | .power, [u, v] => u.pow? v
  | .cosine, [u] => some ⟨(Approximation.cosineSine u.re).1, 0⟩
  | .sine, [u] => some ⟨(Approximation.cosineSine u.re).2, 0⟩
  | .arctangent, [u] => some ⟨Approximation.artan u.re, 0⟩
  | .realPart, [u] => some ⟨settledPart u.re u, 0⟩
  | .imaginaryPart, [u] => some ⟨settledPart u.im u, 0⟩
  | _, _ => none

mutual

/-- The number that an expression denotes, approximated; none with unknowns, and
none that is not finite. -/
def approximate? : Formal → Option Point
  | .atom a => approximateAtom? a
  | .node op as => (approximateAll? as).bind (applyOperator? op)

/-- The numbers that some expressions denote. -/
def approximateAll? : List Formal → Option (List Point)
  | [] => some []
  | a :: as => do return (← approximate? a) :: (← approximateAll? as)

end

/-- Where an expression lies, if it denotes a number. -/
def sign? (e : Formal) : Option Sign :=
  match e.cartesian? with
  | some (x, y) => do return .ofParts (← x.value?) (← y.value?)
  | none => e.approximate?.map Sign.ofPoint

/-- Whether an expression denotes zero. -/
def isZero (e : Formal) : Bool :=
  match e with
  | .scalar c => c.isZero
  | e => e.sign? == some .zero

/-- Whether an expression denotes a real number. -/
def isReal (e : Formal) : Bool :=
  match e.sign? with
  | some .zero | some .positive | some .negative => true
  | _ => false

/-- Whether an expression denotes a positive number. -/
def isPositive (e : Formal) : Bool := e.sign? == some .positive

/-- Whether an expression denotes a negative number. -/
def isNegative (e : Formal) : Bool := e.sign? == some .negative

/-- The real part of the number that an expression denotes, approximated; zero
for what is no number. -/
def approximateReal (e : Formal) : Rat := (e.approximate?.map (·.re)).getD 0

end Formal

end ExactRoots
