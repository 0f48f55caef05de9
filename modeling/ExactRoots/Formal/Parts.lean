import ExactRoots.Formal.Angle

/-!
# Real and imaginary parts

The parts of an expression, found by its structure: sums part by part, products
by multiplying out what is neither real nor imaginary, integer powers by the
binomial formula, and radicals by size and angle.  An expression that holds
exact numbers and integer powers only is worked out exactly.
-/

namespace ExactRoots.Formal

/-- The real and the imaginary part of an expression. -/
structure Parts where
  re : Formal
  im : Formal

namespace Parts

/-- The parts of a real expression. -/
def ofReal (e : Formal) : Parts := ⟨e, zero⟩

/-- The parts of what has none. -/
def undefined : Parts := ⟨Formal.undefined, Formal.undefined⟩

/-- The parts of a Gaussian rational. -/
def ofGaussian (u : Gaussian) : Parts := ⟨.rational u.re, .rational u.im⟩

/-- The parts that nothing simpler is known of. -/
def unknown (e : Formal) : Parts := ⟨.node .realPart [e], .node .imaginaryPart [e]⟩

/-- The product. -/
def mul (a b : Parts) : Parts :=
  ⟨sub (Formal.mul a.re b.re) (Formal.mul a.im b.im),
    add (Formal.mul a.im b.re) (Formal.mul a.re b.im)⟩

/-- The parts of the inverse. -/
def inverse (a : Parts) : Parts :=
  let size := add (pow a.re (natural 2)) (pow a.im (natural 2))
  ⟨quotient a.re size, quotient (neg a.im) size⟩

end Parts

/-- The number of ways to choose `k` of `n`. -/
def choices : (n k : Nat) → Nat
  | _, 0 => 1
  | n, k + 1 => choices n k * (n - k) / (k + 1)

/-- A term of the binomial formula: `factor * a ^ i * b ^ j`. -/
def binomialTerm (factor : Int) (a b : Formal) (i j : Nat) : Formal :=
  let power (e : Formal) (n : Nat) : List Formal := if n = 0 then [] else [pow e (natural n)]
  arithmetic.product (.rational factor :: (power a i ++ power b j))

/-- The `n`th power of a sum of two terms, multiplied out, from the outer terms of
the binomial formula to the inner ones. -/
def expandBinomial (a b : Formal) (n : Nat) : Formal :=
  let inner := (List.range (n / 2)).flatMap fun k =>
    let k := k + 1
    if 2 * k = n then [(k, k)] else [(k, n - k), (n - k, k)]
  arithmetic.sum (((0, n) :: (n, 0) :: inner).map fun (i, j) =>
    binomialTerm (choices n i) a b i j)

/-- A power of a sum of a scalar and an imaginary number, multiplied out; any other
expression stays as it is. -/
def expandPower (e : Formal) : Formal :=
  match e with
  | .power base (.rational q) =>
    match base, base.cartesian? with
    | .node .sum [a, b], some _ =>
      if q.den = 1 ∧ 0 < q.num then expandBinomial a b q.num.natAbs else e
    | _, _ => e
  | e => e

/-- The terms of a product of sums, multiplied out by halves. -/
def expandSums (sums : List Formal) : List Formal :=
  match sums with
  | [] => [one]
  | [sum] => sum.terms
  | a :: b :: rest =>
    let sums := a :: b :: rest
    let left := expandSums (sums.take (sums.length / 2))
    let right := expandSums (sums.drop (sums.length / 2))
    (arithmetic.sum (left.flatMap fun x => right.map fun y => arithmetic.product [x, y])).terms
termination_by sums.length
decreasing_by all_goals simp; omega

/-- A product of sums, multiplied out again and again until no sum is a factor. -/
def expandProduct : (fuel : Nat) → Formal → Formal
  | 0, e => e
  | fuel + 1, e =>
    let sums := e.factors.filter isSum
    if e.isProduct && !sums.isEmpty then
      let plain := arithmetic.product (e.factors.filter (!·.isSum))
      let expanded :=
        arithmetic.sum ((expandSums sums).map fun t => arithmetic.product [plain, t])
      if expanded = e then e else expandProduct fuel expanded
    else e

/-- The parts of `(re + im * i) ^ n`, by the binomial formula. -/
def polynomialParts (a : Parts) (n : Nat) : Parts :=
  let term (j : Nat) : Formal :=
    let sign : Int := if j % 4 < 2 then 1 else -1
    binomialTerm (sign * choices n j) a.re a.im (n - j) j
  let places := List.range (n + 1)
  ⟨arithmetic.sum ((places.filter (· % 2 = 0)).map term),
    arithmetic.sum ((places.filter (· % 2 = 1)).map term)⟩

/-- The factors of a product by their parts: real ones, the sizes of imaginary
ones, sums, and the others. -/
structure SortedFactors where
  real : List Formal
  imaginary : List Formal
  sums : List Formal
  other : List Formal

/-- Sort factors, each given with its parts. -/
def SortedFactors.ofParts : List (Formal × Parts) → SortedFactors
  | [] => ⟨[], [], [], []⟩
  | (factor, parts) :: rest =>
    let sorted := ofParts rest
    if parts.im.isZero then { sorted with real := parts.re :: sorted.real }
    else if parts.re.isZero then { sorted with imaginary := parts.im :: sorted.imaginary }
    else if factor.isSum then { sorted with sums := factor :: sorted.sums }
    else { sorted with other := factor :: sorted.other }

/-- The parts of a product, with `parts` for smaller expressions.  Sums are
multiplied out together; of the others at most one is taken apart. -/
def productParts (parts : Formal → Parts) (fs : List Formal) : Parts :=
  let sorted := SortedFactors.ofParts (fs.map fun f => (f, parts f))
  let (turn, imaginary) :=
    if sorted.imaginary.length % 2 = 1 then (sorted.imaginary.head?, sorted.imaginary.tail)
    else (none, sorted.imaginary)
  let scale := arithmetic.product
    (sorted.real ++ imaginary.map fun e => arithmetic.product [e, .unit])
  let single := arithmetic.product sorted.other
  let other := match sorted.other with
    | [] => Parts.ofReal one
    | [f] => parts f
    | _ => Parts.unknown single
  let scaled : Parts := ⟨mul scale other.re, mul scale other.im⟩
  let turned : Parts := match turn with
    | none => scaled
    | some size => ⟨mul (neg size) scaled.im, mul size scaled.re⟩
  if sorted.sums.isEmpty && single = one then
    match turn with
    | none => .ofReal scale
    | some size => ⟨zero, mul scale size⟩
  else
    match sorted.sums with
    | [] => turned
    | [sum] => turned.mul (parts sum)
    | sums => turned.mul (parts (expandProduct 8 (sums.foldl mul one)))

/-- The parts of the `n`th power of a number with the given parts.  A power of
rounded numbers is multiplied out first. -/
def integerPowerParts (parts : Formal → Parts) (e base : Formal) (inner : Parts) (n : Nat) :
    Parts :=
  let expanded := expandPower (pow base (natural n))
  if inner.re.isScalar && inner.im.isScalar && expanded != e then parts expanded
  else polynomialParts inner n

/-- The parts of a radical, by size and angle. -/
def radicalParts (e base exponent : Formal) (inner : Parts) : Parts :=
  let real := inner.im.isZero
  if real && exponent = half && (inner.re.isPositive || inner.re.isZero) then .ofReal e
  else if real && exponent = half && inner.re.isNegative then ⟨zero, pow (neg base) exponent⟩
  else if real && inner.re.isPositive then .ofReal (pow inner.re exponent)
  else
    let size := sqrt (add (pow inner.re (natural 2)) (pow inner.im (natural 2)))
    let turn := mul (angle inner.re inner.im) exponent
    let length := pow size exponent
    ⟨mul length (cosine turn), mul length (sine turn)⟩

/-- The parts of a power, with `parts` for smaller expressions. -/
def powerParts (parts : Formal → Parts) (base exponent : Formal) : Parts :=
  let e := Formal.power base exponent
  match exponent.rational? with
  | none => if e.isReal then .ofReal e else .unknown e
  | some q =>
    let inner := parts base
    if q.den ≠ 1 then radicalParts e base exponent inner
    else if inner.im.isZero then .ofReal e
    else if 0 ≤ q.num then integerPowerParts parts e base inner q.num.natAbs
    else
      let inverse := inner.inverse
      let inverted := add inverse.re (mul inverse.im .unit)
      integerPowerParts parts e inverted inverse q.num.natAbs

/-- The parts of an expression of limited depth. -/
def partsWithin : (fuel : Nat) → Formal → Parts
  | 0, e => .unknown e
  | fuel + 1, e =>
    match e.gaussian? with
    | some u => .ofGaussian u
    | none =>
      match e with
      | .scalar .undefined | .atom .pole => .undefined
      | .node .sum ts =>
        let parts := ts.map (partsWithin fuel)
        ⟨arithmetic.sum (parts.map (·.re)), arithmetic.sum (parts.map (·.im))⟩
      | .node .product fs => productParts (partsWithin fuel) fs
      | .power base exponent => powerParts (partsWithin fuel) base exponent
      | e => .ofReal e

/-- The real and the imaginary part of an expression. -/
def parts (e : Formal) : Parts := partsWithin (4 * e.depth + 16) e

end ExactRoots.Formal
