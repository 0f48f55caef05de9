import ExactRoots.Formal.Sum

/-!
# Collecting products

A product multiplies its scalars, and powers of one base become a single power.
Radicals of rationals with one exponent are brought under one root, and powers
of minus one are counted in half turns.  A scalar times a sum is multiplied out;
products of sums stay as they are.
-/

namespace ExactRoots.Formal

/-- The factors of a product so far: its scalar, whether a pole is among them,
the exponent of minus one, powers of rationals with the exponents of each, and
the other powers. -/
structure Factored where
  scalar : Scalar
  hasPole : Bool
  turns : Rat
  radicals : List (Scalar × List Rat)
  powers : List (Formal × Formal)

namespace Factored

/-- Nothing collected. -/
def empty : Factored := ⟨.exact 1, false, 0, [], []⟩

/-- Multiply by a scalar. -/
def scale (s : Factored) (c : Scalar) : Factored :=
  if c = .undefined || (s.hasPole && c.isZero) then { s with scalar := .undefined }
  else if s.hasPole then s
  else { s with scalar := s.scalar.mul c }

/-- Put an exponent beside those of the same base. -/
def addExponent (base : Scalar) (exponent : Rat) :
    List (Scalar × List Rat) → List (Scalar × List Rat)
  | [] => [(base, [exponent])]
  | (other, exponents) :: rest =>
    if other = base then (other, exponents ++ [exponent]) :: rest
    else (other, exponents) :: addExponent base exponent rest

/-- Add a rational power of a scalar, with an exponent above zero that is no
integer. -/
def addRadical (s : Factored) (base : Scalar) (exponent : Rat) : Factored :=
  let turned := base.isNegative
  let size := if turned then base.neg else base
  let s := if turned then { s with turns := s.turns + exponent } else s
  if size = .exact 1 then s else { s with radicals := addExponent size exponent s.radicals }

/-- Add an expression that is no product, and that no evaluation changes. -/
def insert (s : Factored) (e : Formal) : Factored :=
  match e with
  | .scalar c => s.scale c
  | .atom .pole =>
    if s.scalar.isZero then { s with scalar := .undefined } else { s with hasPole := true }
  | .unit => { s with turns := s.turns + 1 / 2 }
  | .power (.scalar b) (.rational q) => s.addRadical b q
  | e => { s with powers := s.powers ++ [e.splitPower] }

end Factored

/-- Powers of one base brought together: the exponents of each base, sorted by
what their scalar factors multiply. -/
abbrev Gathered := List (Formal × List (Formal × List Formal))

namespace Gathered

/-- Put a value under a key, in the order in which keys first come up. -/
def file {α : Type} (key : Formal) (start : α) (update : α → α) :
    List (Formal × α) → List (Formal × α)
  | [] => [(key, update start)]
  | (other, value) :: rest =>
    if other = key then (other, update value) :: rest
    else (other, value) :: file key start update rest

/-- Add a power. -/
def insert (g : Gathered) (added : Formal × Formal) : Gathered :=
  let (times, kind) := added.2.splitFactor
  file added.1 [] (file kind [] (· ++ [.scalar times])) g

/-- The powers that were brought together. -/
def powers (ops : Operations) (g : Gathered) : List (Formal × Formal) :=
  g.flatMap fun (base, kinds) =>
    kinds.map fun (kind, times) => (base, ops.times (ops.sum times) kind)

/-- Bring powers of one base together. -/
def ofPowers (ops : Operations) (ps : List (Formal × Formal)) : List (Formal × Formal) :=
  (ps.foldl insert []).powers ops

end Gathered

/-- Whether a power with exponent zero is undefined because its base is not
finite. -/
def isIndefinite (base : Formal) : Bool :=
  (base.isSum || base.isProduct) && base.arguments.any fun
    | .atom .pole | .scalar (.infinite _) => true
    | _ => false

/-- The evaluated powers of a product: each with its base and exponent, unless
the exponent is zero. -/
def evaluatePowers (ops : Operations) (ps : List (Formal × Formal)) :
    Option (List (Formal × Formal × Formal)) :=
  let vanishes (exponent : Formal) : Bool := exponent.isScalar && exponent.isZero
  if ps.any fun (base, exponent) => vanishes exponent && isIndefinite base then none
  else some ((ps.filter fun (_, exponent) => !vanishes exponent).map
    fun (base, exponent) =>
      if exponent = one then (base, base, exponent)
      else
        let value := ops.power base exponent
        if value.isPower && !base.isPower then
          let (base, exponent) := value.splitPower
          (value, base, exponent)
        else (value, base, exponent))

/-- The factors that the powers of a product amount to; none when one of them is
undefined.  Where evaluation has made two bases the same, their powers are
brought together once more. -/
def powerFactors (ops : Operations) (ps : List (Formal × Formal)) : Option (List Formal) := do
  let first ← evaluatePowers ops (Gathered.ofPowers ops ps)
  let bases := first.map (·.2.1)
  if bases.eraseDups.length = bases.length then return first.map (·.1)
  let second ← evaluatePowers ops (Gathered.ofPowers ops (first.map (·.2)))
  return second.map (·.1)

/-- The scalar that an expression amounts to beside the factors that are none. -/
def takeScalars (c : Scalar) (fs : List Formal) : Scalar × List Formal :=
  (fs.foldl (fun c f => match f with | .scalar d => c.mul d | _ => c) c, fs.filter (!·.isScalar))

namespace Radicand

/-- Radicals by exponent, each with its bases, in the order in which exponents
first come up. -/
def byExponent (radicals : List (Scalar × List Rat)) : List (Rat × List Formal) :=
  radicals.foldl (fun groups (base, exponents) =>
    file (exponents.foldl (· + ·) 0) (.scalar base) groups) []
where
  /-- Put a base under its exponent. -/
  file (exponent : Rat) (base : Formal) : List (Rat × List Formal) → List (Rat × List Formal)
    | [] => [(exponent, [base])]
    | (other, bases) :: rest =>
      if other = exponent then (other, bases ++ [base]) :: rest
      else (other, bases) :: file exponent base rest

/-- The greatest common divisor of two rationals: the largest rational of which
both are integer multiples. -/
def commonDivisor (a b : Formal) : Rat :=
  match a, b with
  | .rational p, .rational q =>
    mkRat (Nat.gcd p.num.natAbs q.num.natAbs) (Nat.lcm p.den q.den)
  | _, _ => 1

/-- Divide a rational. -/
def divide (a : Formal) (q : Rat) : Formal :=
  match a with
  | .rational p => .rational (p / q)
  | a => a

/-- A radical with its integral powers taken out of the root. -/
def takeOut (ops : Operations) (base : Formal) (exponent : Rat) :
    Formal × Option (Formal × Rat) :=
  let whole := exponent.floor
  let rest := exponent - whole
  if exponent.den = 1 then (ops.power base (.rational exponent), none)
  else if whole = 0 then (one, some (base, exponent))
  else (ops.power base (.rational whole), some (base, rest))

/-- Take from a radical what it has in common with the later ones: the radical
that is left, the later ones, and the new radicals. -/
def shareWith (ops : Operations) (base : Formal) (exponent : Rat) :
    List (Formal × Rat) → Formal × List (Formal × Rat) × List Formal × List (Formal × Rat)
  | [] => (base, [], [], [])
  | (other, second) :: rest =>
    let divisor := commonDivisor base other
    if base = one || divisor = 1 then
      let (base, rest, outside, grown) := shareWith ops base exponent rest
      (base, (other, second) :: rest, outside, grown)
    else
      let (factor, inside) := takeOut ops (.rational divisor) (exponent + second)
      let (left, rest, outside, grown) := shareWith ops (divide base divisor) exponent rest
      (left, (divide other divisor, second) :: rest, factor :: outside, inside.toList ++ grown)

/-- Evaluate radicals in turn, each after taking out what it shares with later
ones: the factors outside the roots, and the radicals. -/
def evaluate (ops : Operations) : (fuel : Nat) → List (Formal × Rat) → List Formal
  | 0, radicals => radicals.map fun (base, exponent) => .power base (.rational exponent)
  | _, [] => []
  | fuel + 1, (base, exponent) :: rest =>
    let (base, rest, outside, grown) := shareWith ops base exponent rest
    let value := if base = one then [] else (ops.power base (.rational exponent)).factors
    outside ++ value ++ evaluate ops fuel (rest ++ grown)

/-- The factors that the radicals of a product amount to, with the bases of one
exponent multiplied. -/
def factors (ops : Operations) (radicals : List (Scalar × List Rat)) :
    List Formal × List (Formal × List Formal) :=
  let groups := (byExponent radicals).map fun (exponent, bases) => (ops.product bases, exponent)
  let outer := groups.map fun (base, exponent) => takeOut ops base exponent
  let inner := outer.filterMap (·.2)
  let values := evaluate ops (8 * inner.length + 8) inner
  let roots := values.filter isPower
  (outer.map (·.1) ++ values.filter (!·.isPower),
    roots.foldl (fun groups root =>
      match root with
      | .power base exponent => Gathered.file exponent [] (· ++ [base]) groups
      | _ => groups) [])

end Radicand

/-- The powers of minus one in a product: a sign, and a factor that is the
imaginary unit, a radical that goes under a root of the same exponent, or
nothing. -/
def turnFactors (ops : Operations) (turns : Rat) (roots : List (Formal × Formal)) :
    Bool × List Formal × List (Formal × Formal) :=
  let whole := turns.floor
  let rest := turns - whole
  let odd := whole % 2 ≠ 0
  if rest = 0 then (odd, [], roots)
  else if rest = 1 / 2 then (odd, [.unit], roots)
  else
    match roots.findIdx? (fun (exponent, base) => exponent = .rational rest && base.isPositive) with
    | some place =>
      (odd, [], roots.modify place fun (exponent, base) => (exponent, ops.negative base))
    | none => (odd, [.power minusOne (.rational rest)], roots)

/-- What is left of the factors beside something infinite, and whether they turn
its sign. -/
def besideInfinity (fs : List Formal) : List Formal × Bool :=
  (fs.filter fun f => !f.isPositive && !f.isNegative,
    (fs.filter isNegative).length % 2 = 1)

/-- Whether a factor is lost beside a pole: every number but zero is. -/
def isPoleFactor (e : Formal) : Bool :=
  match e.sign? with
  | some .zero | some .oblique | none => true
  | _ => false

namespace Factored

/-- The product of what was collected. -/
def total (ops : Operations) (s : Factored) : Formal :=
  match powerFactors ops s.powers with
  | none => Formal.undefined
  | some values =>
    let (outside, radicals) := Radicand.factors ops s.radicals
    let roots := radicals.map fun (exponent, bases) => (exponent, ops.product bases)
    let (odd, turned, roots) := turnFactors ops s.turns roots
    let scalar := if odd then s.scalar.neg else s.scalar
    let factors := values ++ outside ++ turned
      ++ roots.map fun (exponent, base) => ops.power base exponent
    if scalar = .undefined then Formal.undefined
    else if s.hasPole then
      match (takeScalars scalar factors).2.filter isPoleFactor with
      | [] => Formal.pole
      | rest => .node .product (Formal.pole :: rest)
    else if scalar.isZero then .scalar scalar
    else
      let (scalar, rest) := takeScalars scalar factors
      match scalar with
      | .infinite negative =>
        let (rest, turned) := besideInfinity rest
        joinFactors (.infinite (negative != turned)) (sorted rest)
      | scalar =>
        match sorted rest with
        | [.node .sum ts] =>
          if scalar = .exact 1 then .node .sum ts
          else ops.sum (ts.map fun t => ops.times (.scalar scalar) t)
        | rest => joinFactors scalar rest

end Factored

/-- Whether a factor is a power of a scalar that has to be evaluated before the
product is collected. -/
def isPending : Formal → Bool
  | .power (.scalar _) (.rational q) => q.den = 1 || q < 0
  | _ => false

/-- The factors of some expressions, products among them taken apart to the given
depth.  Those of products come last. -/
def flattenFactors : (depth : Nat) → List Formal → List Formal
  | 0, es => es
  | depth + 1, es =>
    if es.any isProduct then
      es.filter (!·.isProduct) ++ flattenFactors depth ((es.filter isProduct).flatMap factors)
    else es

/-- The factors of some expressions, and after them what pending powers among them
amount to. -/
def openFactors (ops : Operations) (es : List Formal) : List Formal :=
  let opened := flattenFactors (greatestDepth es) es
  let evaluated := (opened.filter isPending).flatMap fun
    | .power base exponent => (ops.power base exponent).factors
    | e => [e]
  opened.filter (!isPending ·) ++ evaluated

/-- A rational times a term of a sum. -/
def scaleTerm (q : Rat) (t : Formal) : Formal :=
  match t with
  | .scalar c => .scalar (c.mul (.exact q))
  | .node .product (.scalar c :: fs) => joinFactors (c.mul (.exact q)) fs
  | .node .product fs => joinFactors (.exact q) fs
  | t => joinFactors (.exact q) [t]

/-- A rational times an expression, when that is a multiple of a sum: a sum is
multiplied out, a multiple of one is not. -/
def scaleSum? (ops : Operations) (q : Rat) (e : Formal) : Option Formal :=
  match e.splitFactor with
  | (times, .node .sum ts) =>
    if q = 0 then none
    else if times = .exact 1 then some (ops.sum (ts.map (scaleTerm q)))
    else some (joinFactors (times.mul (.exact q)) [.node .sum ts])
  | _ => none

/-- The product of two expressions when one is a rational and the other a multiple
of a sum. -/
def scaleEither? (ops : Operations) : List Formal → Option Formal
  | [a, .rational q] => scaleSum? ops q a
  | [.rational q, b] => scaleSum? ops q b
  | _ => none

/-- The product of some expressions. -/
def collectProduct (ops : Operations) (es : List Formal) : Formal :=
  match es.filter (· != one) with
  | [] => one
  | [e] => e
  | es =>
    match scaleEither? ops es with
    | some product => product
    | none => ((openFactors ops es).foldl Factored.insert .empty).total ops

end ExactRoots.Formal
