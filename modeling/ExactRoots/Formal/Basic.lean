import ExactRoots.Formal.Scalar
import ExactRoots.Gaussian

/-!
# Formal expressions

Numbers that are not worked out yet: an expression is an atom, or an operator
with its arguments.  A scalar factor stands first among the arguments of a
product, and a scalar term first among those of a sum; there is at most one.
-/

namespace ExactRoots

/-- An expression without parts.  A pole is the inverse of zero, and a letter is
an unknown. -/
inductive Atom where
  | scalar (c : Scalar)
  | unit
  | circle
  | euler
  | pole
  | letter (name : String)
  deriving DecidableEq, Repr

/-- What joins the arguments of an expression. -/
inductive Operator where
  | sum
  | product
  | power
  | cosine
  | sine
  | arctangent
  | realPart
  | imaginaryPart
  deriving DecidableEq, Repr

/-- A number that is not worked out. -/
inductive Formal where
  | atom (a : Atom)
  | node (op : Operator) (arguments : List Formal)

namespace Formal

mutual

/-- Whether two expressions are the same, decided argument by argument. -/
def decideEqual : (a b : Formal) → Decidable (a = b)
  | .atom a, .atom b => if same : a = b then .isTrue (by rw [same]) else .isFalse (by simp [same])
  | .atom _, .node .. => .isFalse (by simp)
  | .node .., .atom _ => .isFalse (by simp)
  | .node op as, .node op' bs =>
    if same : op = op' then
      match decideEqualAll as bs with
      | .isTrue equal => .isTrue (by rw [same, equal])
      | .isFalse different => .isFalse (by simp [different])
    else .isFalse (by simp [same])

/-- Whether two lists of expressions are the same. -/
def decideEqualAll : (as bs : List Formal) → Decidable (as = bs)
  | [], [] => .isTrue rfl
  | [], _ :: _ => .isFalse (by simp)
  | _ :: _, [] => .isFalse (by simp)
  | a :: as, b :: bs =>
    match decideEqual a b with
    | .isTrue head =>
      match decideEqualAll as bs with
      | .isTrue tail => .isTrue (by rw [head, tail])
      | .isFalse different => .isFalse (by simp [different])
    | .isFalse different => .isFalse (by simp [different])

end

instance : DecidableEq Formal := decideEqual

/-- A scalar as an expression. -/
@[match_pattern]
abbrev scalar (c : Scalar) : Formal := .atom (.scalar c)

/-- An exact rational as an expression. -/
@[match_pattern]
abbrev rational (q : Rat) : Formal := .atom (.scalar (.exact q))

/-- A power, not evaluated. -/
@[match_pattern]
abbrev power (base exponent : Formal) : Formal := .node .power [base, exponent]

/-- The imaginary unit. -/
@[match_pattern]
abbrev unit : Formal := .atom .unit

/-- Zero. -/
def zero : Formal := .rational 0

/-- One. -/
def one : Formal := .rational 1

/-- Minus one. -/
def minusOne : Formal := .rational (-1)

/-- One half. -/
def half : Formal := .rational (1 / 2)

/-- What is undefined. -/
def undefined : Formal := .scalar .undefined

/-- The inverse of zero. -/
def pole : Formal := .atom .pole

/-- The ratio of a circle's circumference to its diameter. -/
def circle : Formal := .atom .circle

/-- The scalar that an expression is. -/
def scalar? : Formal → Option Scalar
  | .scalar c => some c
  | _ => none

/-- The rational that an expression is. -/
def rational? : Formal → Option Rat
  | .rational q => some q
  | _ => none

/-- The integer that an expression is. -/
def integer? (e : Formal) : Option Int :=
  match e.rational? with
  | some q => if q.den = 1 then some q.num else none
  | none => none

/-- Whether an expression is a scalar. -/
def isScalar (e : Formal) : Bool := e.scalar?.isSome

/-- Whether an expression is a sum. -/
def isSum : Formal → Bool
  | .node .sum _ => true
  | _ => false

/-- Whether an expression is a product. -/
def isProduct : Formal → Bool
  | .node .product _ => true
  | _ => false

/-- Whether an expression is a power. -/
def isPower : Formal → Bool
  | .node .power _ => true
  | _ => false

/-- The arguments of an expression; an atom has none. -/
def arguments : Formal → List Formal
  | .atom _ => []
  | .node _ as => as

/-- The terms that an expression is the sum of. -/
def terms : Formal → List Formal
  | .node .sum as => as
  | e => [e]

/-- The factors that an expression is the product of. -/
def factors : Formal → List Formal
  | .node .product as => as
  | e => [e]

/-- The product of a scalar and factors none of which is one, not evaluated. -/
def joinFactors (c : Scalar) (fs : List Formal) : Formal :=
  match c, fs with
  | c, [] => .scalar c
  | .exact q, [f] => if q = 1 then f else .node .product [.rational q, f]
  | .exact q, fs => .node .product (if q = 1 then fs else .rational q :: fs)
  | c, fs => .node .product (.scalar c :: fs)

/-- The sum of a scalar and terms none of which is one, not evaluated. -/
def joinTerms (c : Scalar) (ts : List Formal) : Formal :=
  match c, ts with
  | c, [] => .scalar c
  | .exact q, [t] => if q = 0 then t else .node .sum [.rational q, t]
  | .exact q, ts => .node .sum (if q = 0 then ts else .rational q :: ts)
  | c, ts => .node .sum (.scalar c :: ts)

/-- The scalar factor of an expression and what it multiplies.  A scalar that is
not zero multiplies one, and zero is not taken apart. -/
def splitFactor : Formal → Scalar × Formal
  | .scalar c => if c.isZero then (.exact 1, .scalar c) else (c, one)
  | .node .product (.scalar c :: fs) => (c, joinFactors (.exact 1) fs)
  | e => (.exact 1, e)

/-- The base and the exponent of an expression.  A unit fraction as a base is
turned over. -/
def splitPower : Formal → Formal × Formal
  | .power (.rational q) (.scalar e) =>
    if q.num = 1 ∧ q.den ≠ 1 then (.rational q.den, .scalar e.neg) else (.rational q, .scalar e)
  | .power b e => (b, e)
  | e => (e, one)

/-- The negative of an expression that is no sum. -/
def negateFactor : Formal → Formal
  | .scalar c => .scalar c.neg
  | .node .product (.scalar c :: fs) => joinFactors c.neg fs
  | .node .product fs => joinFactors (.exact (-1)) fs
  | e => joinFactors (.exact (-1)) [e]

/-- The parts of a number written as a scalar plus a scalar times the imaginary
unit. -/
def cartesian? : Formal → Option (Scalar × Scalar)
  | .unit => some (.exact 0, .exact 1)
  | .node .product [.scalar y, .unit] => some (.exact 0, y)
  | .node .sum [.scalar x, .unit] => some (x, .exact 1)
  | .node .sum [.scalar x, .node .product [.scalar y, .unit]] => some (x, y)
  | _ => none

mutual

/-- Whether an expression holds an unknown. -/
def hasLetters : Formal → Bool
  | .atom (.letter _) => true
  | .atom _ => false
  | .node _ as => anyLetters as

/-- Whether any of some expressions holds an unknown. -/
def anyLetters : List Formal → Bool
  | [] => false
  | a :: as => hasLetters a || anyLetters as

end

mutual

/-- The depth of an expression. -/
def depth : Formal → Nat
  | .atom _ => 1
  | .node _ as => greatestDepth as + 1

/-- The greatest depth among some expressions. -/
def greatestDepth : List Formal → Nat
  | [] => 0
  | a :: as => max (depth a) (greatestDepth as)

end

/-- A Gaussian rational to a natural power, by squaring. -/
def gaussianPower (u : Gaussian) (n : Nat) : Gaussian :=
  if n = 0 then 1
  else
    let root := gaussianPower u (n / 2)
    if n % 2 = 1 then u * (root * root) else root * root
termination_by n

mutual

/-- The exact value of an expression that only holds exact numbers and integer
powers. -/
def gaussian? : Formal → Option Gaussian
  | .atom (.scalar (.exact q)) => some (.ofRat q)
  | .atom .unit => some ⟨0, 1⟩
  | .atom _ => none
  | .node .sum as => (gaussians? as).map fun us => us.foldr (· + ·) 0
  | .node .product as => (gaussians? as).map fun us => us.foldr (· * ·) 1
  | .node .power as =>
    match gaussians? as with
    | some [u, v] =>
      if v.im = 0 ∧ v.re.den = 1 then
        let size := gaussianPower u v.re.num.natAbs
        if 0 ≤ v.re.num then some size else if u = 0 then none else some size⁻¹
      else none
    | _ => none
  | .node _ _ => none

/-- The exact values of some expressions, if all have one. -/
def gaussians? : List Formal → Option (List Gaussian)
  | [] => some []
  | a :: as => do return (← gaussian? a) :: (← gaussians? as)

end

/-- A Gaussian rational as an expression. -/
def ofGaussian (u : Gaussian) : Formal :=
  if u.im = 0 then .rational u.re
  else joinTerms (.exact u.re) [joinFactors (.exact u.im) [.unit]]

end Formal

end ExactRoots
