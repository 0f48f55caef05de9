import ExactRoots.Formal.Order
import ExactRoots.Formal.Sign

/-!
# Collecting sums

A sum adds up its scalars and counts like terms together: terms that differ in
their scalar factor only.  What is left is listed in the order of expressions.
-/

namespace ExactRoots.Formal

/-- The operations on expressions that collecting and evaluating rely on for
smaller expressions. -/
structure Operations where
  sum : List Formal → Formal
  product : List Formal → Formal
  power : Formal → Formal → Formal

namespace Operations

/-- The operations that join their arguments without evaluating anything. -/
def unevaluated : Operations where
  sum := fun es => .node .sum es
  product := fun es => .node .product es
  power := fun b e => .power b e

/-- The product of two expressions, at once for scalars. -/
def times (ops : Operations) (a b : Formal) : Formal :=
  match a, b with
  | .scalar c, .scalar d => .scalar (c.mul d)
  | a, b => ops.product [a, b]

/-- The sum of two expressions, at once for scalars. -/
def plus (ops : Operations) (a b : Formal) : Formal :=
  match a, b with
  | .scalar c, .scalar d => .scalar (c.add d)
  | a, b => ops.sum [a, b]

/-- The negative. -/
def negative (ops : Operations) (e : Formal) : Formal :=
  if e.isSum then ops.product [minusOne, e] else e.negateFactor

end Operations

/-- The terms of a sum so far: its scalar, whether a pole is among them, and the
others with their counts. -/
structure Collected where
  constant : Scalar
  hasPole : Bool
  counts : List (Formal × Scalar)

namespace Collected

/-- Nothing collected. -/
def empty : Collected := ⟨.exact 0, false, []⟩

/-- Count a term together with those like it. -/
def count (term : Formal) (times : Scalar) : List (Formal × Scalar) → List (Formal × Scalar)
  | [] => [(term, times)]
  | (other, total) :: rest =>
    if other = term then (other, total.add times) :: rest
    else (other, total) :: count term times rest

/-- Add an expression that is no sum. -/
def insert (s : Collected) (e : Formal) : Collected :=
  match e with
  | .scalar c =>
    match c, s.hasPole with
    | .undefined, _ | .infinite _, true => { s with constant := .undefined }
    | _, true => s
    | c, false => { s with constant := s.constant.add c }
  | .atom .pole =>
    match s.hasPole, s.constant with
    | true, _ | false, .infinite _ => { s with constant := .undefined }
    | false, _ => { s with hasPole := true }
  | e =>
    let (times, term) := e.splitFactor
    { s with counts := count term times s.counts }

/-- Whether adding up left something undefined. -/
def isUndefined (s : Collected) : Bool :=
  s.constant == .undefined || s.counts.any fun (_, times) => times == .undefined

/-- The terms with their counts as factors; those that cancel are left out. -/
def counted (ops : Operations) (s : Collected) : List Formal :=
  s.counts.filterMap fun (term, times) =>
    if times.isZero then none
    else if times = .exact 1 then some term
    else
      match term with
      | .node .product fs => some (joinFactors times fs)
      | .node .sum _ => some (joinFactors times [term])
      | term => some (ops.product [.scalar times, term])

/-- Whether a term is lost beside something infinite: every real number is. -/
def isAbsorbed (e : Formal) : Bool := e.isReal

/-- The sum of what was collected. -/
def total (ops : Operations) (s : Collected) : Formal :=
  if s.isUndefined then Formal.undefined
  else
    let terms := s.counted ops
    let terms := if s.hasPole || !s.constant.isFinite then terms.filter (!isAbsorbed ·) else terms
    let terms := sorted terms
    if s.hasPole then joinTerms (.exact 0) (Formal.pole :: terms)
    else joinTerms s.constant terms

end Collected

/-- The sum of some expressions.  The terms of sums among them come last. -/
def collectSum (ops : Operations) (es : List Formal) : Formal :=
  match es.filter (· != zero) with
  | [] => zero
  | [e] => e
  | es =>
    let single := es.filter (!·.isSum)
    let nested := (es.filter isSum).flatMap terms
    ((single ++ nested).foldl Collected.insert .empty).total ops

end ExactRoots.Formal
