import ExactRoots.Formal.Basic

/-!
# The order of expressions

Sums and products list their arguments in a fixed order: numbers, constants,
letters, powers, products, sums, functions; within a kind the shorter argument
list first, and then argument by argument.
-/

namespace ExactRoots

namespace Scalar

/-- The place of a scalar among the kinds of expressions; the commonest numbers
are kinds of their own. -/
def rank : Scalar → Nat
  | .exact q =>
    if q = 0 then 0
    else if q = 1 then 1
    else if q = 1 / 2 then 2
    else if q = -1 then 5
    else if q.den = 1 then 7
    else 8
  | .infinite negative => if negative then 6 else 3
  | .undefined => 4
  | .rounded .. => 9

/-- The odd part of a natural number that is not zero. -/
def oddPart (n : Nat) : Nat → Nat
  | 0 => n
  | fuel + 1 => if n % 2 = 0 then oddPart (n / 2) fuel else n

/-- The order of rounded numbers: sign, odd part of the digits, exponent, count
of digits. -/
def compareRounded (p q : Rat) (m n : Nat) : Ordering :=
  let mantissa (q : Rat) : Nat := oddPart q.num.natAbs (q.num.natAbs.log2 + 1)
  let exponent (q : Rat) : Int := (q.num.natAbs.log2 : Int) - (mantissa q).log2 - q.den.log2
  (compare (decide (p < 0)) (decide (q < 0))).then <|
    (compare (mantissa p) (mantissa q)).then <|
      (compare (exponent p) (exponent q)).then (compare m n)

/-- The order of scalars of one rank. -/
def compareAlike : Scalar → Scalar → Ordering
  | .exact p, .exact q => (compare p.num q.num).then (compare p.den q.den)
  | .rounded p m, .rounded q n => compareRounded p q m n
  | _, _ => .eq

end Scalar

namespace Formal

/-- The place of an operator among the kinds of expressions. -/
def operatorRank : Operator → Nat
  | .power => 14
  | .product => 15
  | .sum => 16
  | .arctangent => 18
  | .cosine => 19
  | .imaginaryPart => 20
  | .realPart => 21
  | .sine => 22

/-- The place of an expression among the kinds of expressions. -/
def rank : Formal → Nat
  | .atom (.scalar c) => c.rank
  | .atom .euler => 10
  | .atom .circle => 11
  | .atom .unit => 12
  | .atom (.letter _) => 13
  | .atom .pole => 17
  | .node op _ => operatorRank op

/-- The order of atoms of one rank. -/
def compareAtoms : Atom → Atom → Ordering
  | .scalar c, .scalar d => c.compareAlike d
  | .letter s, .letter t => compare s t
  | _, _ => .eq

mutual

/-- The order of expressions. -/
def order : Formal → Formal → Ordering
  | .atom a, .atom b => (compare (rank (.atom a)) (rank (.atom b))).then (compareAtoms a b)
  | .node op as, .node op' bs =>
    (compare (operatorRank op) (operatorRank op')).then <|
      (compare as.length bs.length).then (orderAll as bs)
  | .atom a, .node op _ => compare (rank (.atom a)) (operatorRank op)
  | .node op _, .atom b => compare (operatorRank op) (rank (.atom b))

/-- The order of argument lists of one length. -/
def orderAll : List Formal → List Formal → Ordering
  | a :: as, b :: bs => (order a b).then (orderAll as bs)
  | _, _ => .eq

end

/-- Expressions in their order. -/
def sorted (es : List Formal) : List Formal := es.mergeSort fun a b => (order a b).isLE

end Formal

end ExactRoots
