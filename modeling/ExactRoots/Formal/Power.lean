import ExactRoots.Formal.Product
import ExactRoots.Formal.Radical

/-!
# Evaluating powers

A power of scalars is evaluated when the result is one, and radicals of rationals
are brought to simplest form.  The square root of a Gaussian rational is taken
when its absolute value is rational, and its inverse is formed through the
conjugate.  Every other power stays as it is.
-/

namespace ExactRoots.Formal

/-- A natural number as an expression. -/
def natural (n : Nat) : Formal := .rational n

/-- The factors of a radical: what comes out of the root, radicals of a lower
order, and what stays with its exponent above one. -/
structure RadicalParts where
  outside : Nat
  lower : List (Nat × Rat)
  inside : List (Nat × Nat)

namespace RadicalParts

/-- Sort the prime powers of a number under a root of the given order. -/
def ofPowers (order : Nat) : List (Nat × Nat) → RadicalParts
  | [] => ⟨1, [], []⟩
  | (base, count) :: rest =>
    let parts := ofPowers order rest
    let outside := Nat.pow base (count / order) * parts.outside
    let left := count % order
    let divisor := Nat.gcd left order
    if left = 0 then ⟨outside, parts.lower, parts.inside⟩
    else if divisor ≠ 1 then
      ⟨outside, (base, mkRat (left / divisor) (order / divisor)) :: parts.lower, parts.inside⟩
    else ⟨outside, parts.lower, (base, left) :: parts.inside⟩

/-- The greatest number that divides all exponents under the root. -/
def commonExponent (parts : RadicalParts) : Nat :=
  parts.inside.foldl (fun divisor (_, count) => Nat.gcd divisor count) 0

/-- The number under the root, after the common exponent is taken out. -/
def radicand (parts : RadicalParts) : Nat :=
  parts.inside.foldl (fun n (base, count) =>
    n * Nat.pow base (count / parts.commonExponent)) 1

end RadicalParts

/-- A radical of a natural number above one, with a positive exponent that is no
integer; none when it is in simplest form. -/
def naturalRadical? (ops : Operations) (n : Nat) (exponent : Rat) : Option Formal :=
  let order := exponent.den
  let count := exponent.num.natAbs
  match Radical.root? n order with
  | some root => some (natural (Nat.pow root count))
  | none =>
    let parts := RadicalParts.ofPowers order
      ((Radical.powers n).map fun (base, times) => (base, times * count))
    let inside := parts.radicand
    if inside = n ∧ parts.outside = 1 ∧ parts.lower.isEmpty then none
    else
      let lower := parts.lower.foldl (fun e (base, lower) =>
        ops.times e (ops.power (natural base) (.rational lower))) one
      let root := if inside = 1 then one
        else ops.power (natural inside) (.rational (mkRat parts.commonExponent order))
      some (ops.times (ops.times (natural parts.outside) lower) root)

/-- A radical of an integer other than zero and one of either sign. -/
def integerRadical? (ops : Operations) (n : Int) (exponent : Rat) : Option Formal :=
  let turn := ops.power minusOne (.rational exponent)
  if n < 0 ∧ exponent = 1 / 2 then some (ops.product [.unit, ops.power (.rational (-n)) half])
  else if exponent < 0 then
    let inverse := ops.power (.rational (1 / n.natAbs)) (.rational (-exponent))
    some (if n < 0 then ops.product [turn, inverse] else inverse)
  else
    (naturalRadical? ops n.natAbs exponent).map fun root =>
      if n < 0 then ops.times root turn else root

/-- A radical of a fraction: the denominator leaves the root. -/
def fractionRadical (ops : Operations) (q exponent : Rat) : Formal :=
  if exponent < 0 then
    if q < 0 then
      ops.product [ops.power minusOne (.rational exponent),
        ops.power (.rational (-1 / q)) (.rational (-exponent))]
    else ops.power (.rational (1 / q)) (.rational (-exponent))
  else
    let whole := exponent.floor + 1
    let denominator := ops.power (natural q.den) (.rational (whole - exponent))
    let outside := Formal.rational (1 / (Nat.pow q.den whole.toNat : Nat))
    if q.num = 1 then ops.times denominator outside
    else
      let numerator := ops.power (.rational q.num) (.rational exponent)
      ops.times (ops.times numerator denominator) outside

/-- A power of minus one whose exponent is no integer; none for exponents from
zero to one other than one half. -/
def turnPower? (ops : Operations) (exponent : Rat) : Option Formal :=
  if exponent = 1 / 2 then some .unit
  else if exponent.den = 2 then some (ops.power .unit (.rational exponent.num))
  else
    let whole := exponent.floor
    if whole = 0 then none
    else some (ops.times (ops.power minusOne (.rational whole))
      (ops.power minusOne (.rational (exponent - whole))))

/-- A power of zero. -/
def zeroPower? (exponent : Formal) : Option Formal :=
  match exponent.sign? with
  | some .zero => some one
  | some .positive => some zero
  | some .negative => some pole
  | some _ => some undefined
  | none => none

/-- A rounded number that is not zero to a rounded exponent.  A negative number
to an exponent that is no integer has an imaginary part. -/
def roundedPower (ops : Operations) (q exponent : Rat) (bits : Nat) : Formal :=
  if exponent.den = 1 then .scalar (Scalar.roundedPower q bits exponent.num)
  else if 0 < q then
    let top := Precision.topExponent q * exponent
    if top.abs ≤ Scalar.widestExponent then
      .scalar (.settle bits (Scalar.realPower .nearest bits q exponent))
    else
      .scalar (.rounded (Precision.scaled false 1
        (if 0 < top then Scalar.widestExponent else -Scalar.widestExponent)) bits)
  else
    let value := Approximation.Point.polarPower ⟨q, 0⟩ ⟨exponent, 0⟩
    let re := if exponent.den = 2 then 0 else value.re
    ops.plus (.scalar (.settle bits re)) (ops.times (.scalar (.settle bits value.im)) .unit)

/-- A power of a rounded number. -/
def roundedBase? (ops : Operations) (q : Rat) (bits : Nat) (exponent : Formal) : Option Formal :=
  if q = 0 then
    match exponent.sign? with
    | some .positive => some (.scalar (.rounded 0 bits))
    | some .negative => some pole
    | some .zero => some (.scalar (.rounded 1 bits))
    | _ => none
  else
    match exponent with
    | .scalar (.exact e) =>
      if e.den = 1 then some (.scalar (Scalar.roundedPower q bits e.num))
      else if e.num = 1 ∧ e.den % 2 = 1 ∧ q < 0 then
        some (ops.product [.power minusOne exponent,
          ops.power (.scalar (.rounded (-q) bits)) exponent])
      else some (roundedPower ops q (Precision.round .nearest bits e) bits)
    | .scalar (.rounded e more) => some (roundedPower ops q e (max bits more))
    | .scalar _ => some undefined
    | _ => none

/-- A power of an exact rational. -/
def exactBase? (ops : Operations) (q : Rat) (exponent : Formal) : Option Formal :=
  if q = 0 then zeroPower? exponent
  else if q = 1 then some one
  else
    match exponent with
    | .scalar (.rounded e bits) =>
      let bits' := if q = -1 then Scalar.doubleBits else bits
      roundedBase? ops (Precision.round .nearest bits' q) bits' (.scalar (.rounded e bits))
    | .scalar (.exact e) =>
      if e.den = 1 then (Scalar.powInt? (.exact q) e.num).map .scalar
      else if q = -1 then turnPower? ops e
      else if q.den = 1 then integerRadical? ops q.num e
      else some (fractionRadical ops q e)
    | .scalar _ => some undefined
    | _ => none

/-- A power of a scalar. -/
def scalarPower? (ops : Operations) (c : Scalar) (exponent : Formal) : Option Formal :=
  match c with
  | .exact q => exactBase? ops q exponent
  | .rounded q bits => roundedBase? ops q bits exponent
  | c =>
    match exponent.integer? with
    | some n => (c.powInt? n).map .scalar
    | none => some undefined

/-- A power of the imaginary unit. -/
def unitPower? (exponent : Formal) : Option Formal :=
  match exponent.rational? with
  | none => none
  | some q =>
    if q.den = 1 then
      match (q.num % 4).toNat with
      | 0 => some one
      | 1 => some .unit
      | 2 => some minusOne
      | _ => some (negateFactor .unit)
    else
      let rounds := (q / 2).floor
      let rest := Formal.power .unit (.rational (q - 2 * rounds))
      some (if rounds % 2 = 0 then rest else negateFactor rest)

/-- A power of the base of the natural logarithm whose exponent is a number of quarter
turns. -/
def eulerPower? (exponent : Formal) : Option Formal :=
  match exponent with
  | .node .product [.atom .circle, .unit] => some minusOne
  | .node .product [.rational q, .atom .circle, .unit] =>
    if (2 * q).den = 1 then unitPower? (.rational (2 * q)) else none
  | _ => none

/-- The rational square root of a rational. -/
def rationalRoot? (q : Rat) : Option Rat :=
  if q < 0 then none
  else do return mkRat (← Radical.root? q.num.natAbs 2) (← Radical.root? q.den 2)

/-- The multiple of the imaginary unit by a scalar. -/
def timesUnit (ops : Operations) (y : Scalar) : Formal := ops.times (.scalar y) .unit

/-- The power of a Gaussian rational with an odd number of halves as exponent, when
the absolute value is rational. -/
def gaussianRoot? (ops : Operations) (x y exponent : Rat) : Option Formal := do
  let size ← rationalRoot? (x * x + y * y)
  let scale := ops.power (ops.power (.rational ((size - x) / 2)) half) (.rational exponent.num)
  let turn := timesUnit ops (.exact (if y < 0 then -1 else 1))
  let base := ops.plus (.rational ((size + x) / y.abs)) turn
  let value := ops.power base (.rational exponent.num)
  let value := match value.gaussian? with
    | some u => ops.plus (.rational u.re) (timesUnit ops (.exact u.im))
    | none => value
  return ops.times scale value

/-- The inverse of `x + y * i`: the conjugate, not multiplied by the inverse of the
squared size. -/
def cartesianInverse (ops : Operations) (x y : Scalar) : Formal :=
  let size := (x.mul x).add (y.mul y)
  let conjugate := ops.plus (.scalar x) (timesUnit ops y.neg)
  match size.powInt? (-1) with
  | some inverse => joinFactors inverse [conjugate]
  | none => pole

/-- The greatest of some scalars in size, made positive; the last one of equals. -/
def greatestSize : List Scalar → Option Scalar
  | [] => none
  | c :: cs =>
    let size := if c.isNegative then c.neg else c
    match greatestSize cs with
    | none => some size
    | some other =>
      if (other.value?.getD 0) < (size.value?.getD 0) then some size else some other

/-- A scalar divided by a positive one that is at least as large in size. -/
def normalized (c size : Scalar) : Scalar :=
  if c = size then .exact 1
  else if c = size.neg then .exact (-1)
  else
    match size.powInt? (-1), c, size with
    | _, .rounded p m, .rounded q n => .settle (max m n) (p / q)
    | _, .rounded p m, .exact q => .settle m (p / Precision.round .nearest m q)
    | some inverse, c, _ => c.mul inverse
    | none, _, _ => .undefined

/-- A sum with rounded factors to a scalar exponent: the greatest factor is taken
out first. -/
def normalizedSum? (ops : Operations) (ts : List Formal) (exponent : Formal) : Option Formal :=
  let split := ts.map splitFactor
  let isRounded : Scalar → Bool
    | .rounded .. => true
    | _ => false
  if split.any fun (c, _) => isRounded c then
    match greatestSize (split.map (·.1)) with
    | some size =>
      if size = .exact 1 ∨ size.isZero then none
      else
        let inner := ops.sum (split.map fun (c, t) => ops.times (.scalar (normalized c size)) t)
        some (ops.times (ops.power (.scalar size) exponent) (ops.power inner exponent))
    | none => none
  else none

/-- A power of a sum. -/
def sumPower? (ops : Operations) (ts : List Formal) (exponent : Formal) : Option Formal :=
  let base := Formal.node .sum ts
  if base.hasLetters then none
  else
    match exponent with
    | .rational e =>
      match base.cartesian? with
      | some (x, y) =>
        if e = -1 then some (cartesianInverse ops x y)
        else if e.den = 2 then
          match x, y with
          | .exact p, .exact q => gaussianRoot? ops p q e
          | _, _ => none
        else none
      | none => none
    | .scalar (.rounded e _) => if e.abs = 1 then none else normalizedSum? ops ts exponent
    | _ => none

/-- The factors of a base by what a power of each may be taken of: those that are
not negative, those that are real and negative or not real, and the others. -/
structure Sifted where
  plain : List Formal
  turned : List Formal
  other : List Formal

/-- Sort factors for a power. -/
def Sifted.ofFactors (fs : List Formal) : Sifted :=
  let place (f : Formal) : Option Bool :=
    match f.sign? with
    | some .zero | some .positive => some true
    | some _ => some false
    | none => none
  let proper := fs.filter (· != .unit)
  { plain := proper.filter (place · = some true)
    turned := proper.filter (place · = some false)
    other := proper.filter (place · = none) ++ fs.filter (· = .unit) }

/-- Give the factors that are not plain a common sign, or leave them together. -/
def Sifted.settle (ops : Operations) (s : Sifted) : List Formal × List Formal :=
  match s.turned with
  | [] => (s.plain, s.other)
  | [f] =>
    if !s.other.isEmpty && f.isScalar && f != minusOne then
      (s.plain ++ [f.negateFactor], s.other ++ [minusOne])
    else (s.plain, s.other ++ [f])
  | f :: rest =>
    let (sign, turned) := if s.other.isEmpty && f.isScalar then (f, rest) else (one, f :: rest)
    let sign := if turned.length % 2 = 1 then sign.negateFactor else sign
    (s.plain ++ turned.map ops.negative, s.other ++ if sign = one then [] else [sign])

/-- A power of a product with a scalar exponent that is no integer: the factors that
are not negative leave the common power. -/
def separated (ops : Operations) (fs : List Formal) (exponent : Formal) : Formal :=
  let (plain, other) := (Sifted.ofFactors fs).settle ops
  let isRadical (f : Formal) : Bool := exponent.rational?.isSome &&
    match f with
    | .power b (.rational _) => !b.hasLetters
    | _ => false
  let radicals := ops.product ((plain.filter isRadical).map fun f => ops.power f exponent)
  let powers := ops.product ((plain.filter (!isRadical ·)).map fun f => .power f exponent)
  let product := if plain.isEmpty then one else ops.times radicals powers
  if other.isEmpty then product else ops.times product (.power (ops.product other) exponent)

/-- The square root of a multiple of the imaginary unit whose half is a square. -/
def unitMultipleRoot? (ops : Operations) (y exponent : Rat) : Option Formal := do
  let root ← rationalRoot? (y / 2).abs
  let base := ops.plus one (timesUnit ops (.exact (if y < 0 then -1 else 1)))
  let power := ops.power base (.rational exponent.num)
  let scale := ops.power (.rational root) (.rational exponent.num)
  let (c, fs) := takeScalars (.exact 1) (scale :: power.factors)
  return joinFactors c (sorted fs)

/-- A power of a product. -/
def productPower? (ops : Operations) (fs : List Formal) (exponent : Formal) : Option Formal :=
  match exponent with
  | .rational e =>
    if e.den = 1 then some (ops.product (fs.map fun f => .power f exponent))
    else
      match e.den, fs with
      | 2, [.rational y, .unit] =>
        some ((unitMultipleRoot? ops y e).getD (separated ops fs exponent))
      | _, fs => some (separated ops fs exponent)
  | .scalar _ => some (separated ops fs exponent)
  | _ => none

/-- Whether the exponents of a power of a power may be multiplied: the inner power
must not turn its base out of the principal range. -/
def multiplies (base inner : Formal) : Bool :=
  let exponent := inner.approximateReal
  exponent.abs < 1 ||
    match base.sign? with
    | none => false
    | some .zero | some .positive => true
    | some _ => 0 ≤ Approximation.settleZero base.approximateReal && exponent.abs < 2

/-- The base of an even power without its sign. -/
def unsignedBase (ops : Operations) (base : Formal) : Formal :=
  match base.sign?, base with
  | some .negative, b => ops.negative b
  | some .imaginary, .node .product (.scalar c :: fs) =>
    if c.isNegative then joinFactors c.neg fs else base
  | _, b => b

/-- How many turns an inner power is out of the principal range. -/
def surplusTurns (base : Formal) (inner : Rat) : Int :=
  match base.approximate? with
  | some u =>
    (1 / 2 - inner * Approximation.angle u.re u.im / (2 * Approximation.circleConstant)).floor
  | none => 0

/-- A power of a power. -/
def powerPower? (ops : Operations) (base inner exponent : Formal) : Option Formal :=
  let joined (base : Formal) : Formal := ops.power base (ops.times inner exponent)
  if exponent.integer?.isSome then some (joined base)
  else if !inner.isReal then none
  else
    let halves := exponent.rational?.any fun q => q.den = 2
    if inner = minusOne ∧ halves ∧ base.isNegative then
      some (ops.times (ops.power minusOne exponent)
        (ops.power (ops.negative base) (ops.times inner exponent)))
    else if inner = minusOne ∧ halves ∧ base.sign?.isSome then
      some (ops.power base (ops.negative exponent))
    else
      let even := inner.integer?.any fun n => n % 2 = 0
      let base := if even then unsignedBase ops base else base
      if multiplies base inner then some (joined base)
      else if halves ∧ base.sign?.isSome then
        let turns := surplusTurns base inner.approximateReal
        if turns % 2 = 0 then some (joined base) else some (ops.negative (joined base))
      else none

/-- A power of a pole. -/
def polePower? (exponent : Formal) : Option Formal :=
  match exponent.sign? with
  | some .positive => some pole
  | some .negative => some zero
  | _ => none

/-- Evaluate a power by the kind of its base. -/
def evaluateBase (ops : Operations) (base exponent : Formal) : Formal :=
  let value? := match base with
    | .scalar c => scalarPower? ops c exponent
    | .unit => unitPower? exponent
    | .atom .euler => eulerPower? exponent
    | .power b e => powerPower? ops b e exponent
    | .node .product fs => productPower? ops fs exponent
    | .node .sum ts => sumPower? ops ts exponent
    | .atom .pole => polePower? exponent
    | _ => none
  value?.getD (.power base exponent)

/-- Whether a base is a number written with a minus sign. -/
def isMinus : Formal → Bool
  | .scalar c => c.isNegative
  | .node .product (.scalar c :: fs) => c.isNegative && !anyLetters fs
  | _ => false

/-- A power.  A minus sign of the base is taken out of integer powers. -/
def evaluatePower (ops : Operations) (base exponent : Formal) : Formal :=
  if exponent = zero then one
  else if exponent = one then base
  else if exponent = pole ∨ exponent = undefined ∨ base = undefined then undefined
  else if exponent = minusOne ∧ base.isScalar ∧ base.isZero then pole
  else if base = one then one
  else
    match exponent.integer? with
    | some n =>
      if base.isMinus then
        let size := base.negateFactor
        if n % 2 = 0 then evaluateBase ops size exponent else (ops.power size exponent).negateFactor
      else evaluateBase ops base exponent
    | none => evaluateBase ops base exponent

end ExactRoots.Formal
