import ExactRoots.Formal.Arithmetic

/-!
# Angles of expressions

The angle of a complex number, and the cosine and the sine of a real one.  What
is a simple multiple of the circle constant has a simple form; rounded angles are
evaluated, and all others stay as they are.
-/

namespace ExactRoots.Formal

/-- Apply a function to a rounded number. -/
def onRounded (f : Rat → Rat) (q : Rat) (bits : Nat) : Formal := .scalar (.settle bits (f q))

/-- The quotient; undefined where there is none. -/
def quotient (a b : Formal) : Formal := (div? a b).getD undefined

/-- The multiple of the circle constant by a rational. -/
def circleMultiple (q : Rat) : Formal := mul (.rational q) circle

/-- The rational of which an expression is the multiple of the circle
constant. -/
def circleMultiple? : Formal → Option Rat
  | .rational q => if q = 0 then some 0 else none
  | .atom .circle => some 1
  | .node .product [.rational q, .atom .circle] => some q
  | _ => none

/-- The inverse tangent of a real number. -/
def arctangent (e : Formal) : Formal :=
  if e.isZero then zero
  else
    match e with
    | .rational q =>
      if q = 1 ∨ q = -1 then circleMultiple (q / 4)
      else if q < 0 then negateFactor (.node .arctangent [.rational (-q)])
      else .node .arctangent [.rational q]
    | .scalar (.rounded q bits) => onRounded Approximation.artan q bits
    | e => .node .arctangent [e]

/-- The angle of the complex number with the given parts. -/
def angle (re im : Formal) : Formal :=
  if re.isZero then circleMultiple (if im.isPositive then 1 / 2 else -1 / 2)
  else
    let inner := arctangent (quotient im re)
    if re.isPositive then inner
    else if im.isNegative then sub inner circle
    else add inner circle

/-- The cosines of simple multiples of the circle constant, from zero to two. -/
def simpleCosine? (q : Rat) : Option Formal :=
  let root (n : Nat) : Formal := mul half (sqrt (.rational n))
  let table : List (Rat × Formal) :=
    [(0, one), (1 / 6, root 3), (1 / 4, root 2), (1 / 3, half), (1 / 2, zero),
      (2 / 3, neg half), (3 / 4, neg (root 2)), (5 / 6, neg (root 3)), (1, minusOne)]
  table.lookup (if 1 < q then 2 - q else q)

/-- The cosine of a real number. -/
def cosine (e : Formal) : Formal :=
  match e with
  | .scalar (.rounded q bits) => onRounded (fun q => (Approximation.cosineSine q).1) q bits
  | e =>
    let simple := e.circleMultiple?.bind fun q => simpleCosine? (q - 2 * (q / 2).floor)
    simple.getD (.node .cosine [e])

/-- The sine of a real number. -/
def sine (e : Formal) : Formal :=
  match e with
  | .scalar (.rounded q bits) => onRounded (fun q => (Approximation.cosineSine q).2) q bits
  | e =>
    match e.circleMultiple? with
    | some q => cosine (circleMultiple (1 / 2 - q))
    | none => .node .sine [e]

end ExactRoots.Formal
