import ExactRoots.Formal.Evaluation
import Mathlib.Data.Rat.Floor
import Mathlib.Tactic.NormNum

/-!
# Expressions in Cartesian form

A rational, a multiple of the imaginary unit, and the sum of the two are in
normal form.  Arithmetic on them that leads from one to another is exact, and the
number of such an expression is the Gaussian rational that it is made from.
-/

namespace ExactRoots.Formal

/-- The multiple of the imaginary unit by a rational. -/
def imaginary (y : Rat) : Formal := joinFactors (.exact y) [.unit]

/-- A multiple of the imaginary unit is the unit or a product with it. -/
theorem imaginary_eq (y : Rat) :
    imaginary y = if y = 1 then .unit else .node .product [.rational y, .unit] := rfl

theorem imaginary_cases (y : Rat) : (y = 1 ∧ imaginary y = .unit) ∨
    (y ≠ 1 ∧ imaginary y = .node .product [.rational y, .unit]) := by
  rw [imaginary_eq]
  by_cases one : y = 1
  · exact .inl ⟨one, if_pos one⟩
  · exact .inr ⟨one, if_neg one⟩

/-! ## Rationals -/

theorem mul_rational (p q : Rat) : mul (.rational p) (.rational q) = .rational (p * q) := rfl

/-- The inverse of a positive rational. -/
theorem pow_minusOne {q : Rat} (positive : 0 < q) :
    pow (.rational q) minusOne = .rational q⁻¹ := by
  have unfolded : pow (.rational q) minusOne =
      evaluatePower (operations 63) (.rational q) minusOne := rfl
  have special : ¬ (minusOne = pole ∨ minusOne = undefined ∨ Formal.rational q = undefined) := by
    simp [minusOne, pole, undefined]
  have nonzero : (Formal.rational q).isZero = false := by
    simp [isZero, Scalar.isZero, Scalar.value?, positive.ne']
  have unsigned : (Formal.rational q).isMinus = false := by
    simp [isMinus, Scalar.isNegative, positive.le]
  have whole : integer? minusOne = some (-1) := rfl
  rw [unfolded, evaluatePower, if_neg (by decide), if_neg (by decide), if_neg special,
    if_neg (by simp [nonzero])]
  by_cases one : q = 1
  · subst one
    rw [if_pos (show Formal.rational 1 = Formal.one from rfl), inv_one]
    rfl
  · have power : scalarPower? (operations 63) (.exact q) minusOne = some (.rational q⁻¹) := by
      have inverse : Scalar.powInt? (.exact q) (-1) = some (.exact q⁻¹) := by
        simp [Scalar.powInt?, positive.ne', Rat.pow]
      simp [scalarPower?, exactBase?, minusOne, positive.ne', one, inverse]
    rw [if_neg (by simp [Formal.one, one])]
    simp only [whole, unsigned, evaluateBase, power]
    rfl

theorem div?_rational (p : Rat) {q : Rat} (positive : 0 < q) :
    div? (.rational p) (.rational q) = some (.rational (p / q)) := by
  have inverse : timesInverse (.rational p) (.rational q) = .rational (p / q) := by
    rw [timesInverse, pow_minusOne positive]
    split
    next one =>
      obtain rfl : p = 1 := by simpa [Formal.one] using one
      rw [one_div]
    next => rw [mul_rational, div_eq_mul_inv]
  exact congrArg some inverse

/-! ## Multiples of the unit -/

theorem turnFactors_half (ops : Operations) :
    turnFactors ops (0 + 1 / 2) [] = (false, [.unit], []) := by
  have whole : (0 + 1 / 2 : Rat).floor = 0 := by decide +kernel
  rw [turnFactors, whole]
  norm_num

/-- Collecting a rational and the imaginary unit leaves their product as it is. -/
theorem collectProduct_unit (ops : Operations) {y : Rat} (nonzero : y ≠ 0) :
    collectProduct ops [.rational y, .unit] = imaginary y := by
  by_cases one : y = 1
  · subst one
    rfl
  have kept : [Formal.rational y, .unit].filter (· != Formal.one) = [.rational y, .unit] := by
    have scalar : (Formal.rational y != Formal.one) = true := by simp [Formal.one, one]
    have unit : (Formal.unit != Formal.one) = true := rfl
    simp [scalar, unit]
  have direct : scaleEither? ops [.rational y, .unit] = none := rfl
  have opened : openFactors ops [.rational y, .unit] = [.rational y, .unit] := rfl
  have collected : [Formal.rational y, .unit].foldl Factored.insert .empty =
      ⟨.exact (1 * y), false, 0 + 1 / 2, [], []⟩ := rfl
  have total : Factored.total ops ⟨.exact y, false, 0 + 1 / 2, [], []⟩ = imaginary y := by
    have powers : powerFactors ops [] = some [] := rfl
    have radicals : Radicand.factors ops [] = ([], []) := rfl
    have single : sorted [Formal.unit] = [.unit] := by simp [sorted]
    simp only [Factored.total, powers, radicals, List.map_nil, turnFactors_half]
    simp [Scalar.isZero, Scalar.value?, nonzero, takeScalars, isScalar, scalar?, single, imaginary]
  simp only [collectProduct, kept, direct, opened, collected, one_mul, total]

theorem mul_unit {y : Rat} (nonzero : y ≠ 0) : mul (.rational y) .unit = imaginary y :=
  collectProduct_unit (operations 63) nonzero

theorem neg_imaginary (y : Rat) : neg (imaginary y) = imaginary (-y) := by
  rcases imaginary_cases y with ⟨rfl, unit⟩ | ⟨-, product⟩
  · rw [unit]
    rfl
  · rw [product]
    rfl

/-! ## Sums -/

/-- Counting a multiple of the unit once leaves it as it is. -/
theorem counted_unit (depth : Nat) {x y : Rat} (nonzero : y ≠ 0) :
    Collected.counted (operations (depth + 1)) ⟨.exact x, false, [(.unit, .exact y)]⟩ =
      [imaginary y] := by
  have product : (operations (depth + 1)).product [.rational y, .unit] = imaginary y :=
    collectProduct_unit (operations depth) nonzero
  by_cases one : y = 1
  · subst one
    rfl
  · simp [Collected.counted, Scalar.isZero, Scalar.value?, nonzero, one, product]

/-- The sum of a rational and a multiple of the imaginary unit, neither of them zero. -/
theorem add_imaginary {x y : Rat} (xNonzero : x ≠ 0) (yNonzero : y ≠ 0) :
    add (.rational x) (imaginary y) = .ofGaussian ⟨x, y⟩ := by
  have unfolded : add (.rational x) (imaginary y) =
      collectSum (operations 63) [.rational x, imaginary y] := by
    rcases imaginary_cases y with ⟨-, unit⟩ | ⟨-, product⟩
    · rw [unit]
      rfl
    · rw [product]
      rfl
  have kept : [.rational x, imaginary y].filter (· != zero) = [.rational x, imaginary y] := by
    have real : (Formal.rational x != zero) = true := by simp [zero, xNonzero]
    have other : (imaginary y != zero) = true := by
      rcases imaginary_cases y with ⟨-, unit⟩ | ⟨-, product⟩
      · rw [unit]
        rfl
      · rw [product]
        rfl
    simp [real, other]
  have collected : ([.rational x, imaginary y].filter (!·.isSum) ++
      ([.rational x, imaginary y].filter isSum).flatMap terms).foldl Collected.insert .empty =
        ⟨.exact (0 + x), false, [(.unit, .exact y)]⟩ := by
    rcases imaginary_cases y with ⟨rfl, unit⟩ | ⟨-, product⟩
    · rw [unit]
      rfl
    · rw [product]
      rfl
  have total : Collected.total (operations 63) ⟨.exact x, false, [(.unit, .exact y)]⟩ =
      joinTerms (.exact x) [imaginary y] := by
    have defined : Collected.isUndefined ⟨.exact x, false, [(.unit, .exact y)]⟩ = false := rfl
    have finite : (Scalar.exact x).isFinite = true := rfl
    have single : sorted [imaginary y] = [imaginary y] := by simp [sorted]
    simp [Collected.total, defined, counted_unit 62 yNonzero, finite, single]
  rw [unfolded, collectSum, kept]
  simp only [collected, zero_add, total]
  rw [ofGaussian, if_neg yNonzero, imaginary]

theorem sub_imaginary {x y : Rat} (xNonzero : x ≠ 0) (yNonzero : y ≠ 0) :
    sub (.rational x) (imaginary y) = .ofGaussian ⟨x, -y⟩ := by
  rw [sub, neg_imaginary, add_imaginary xNonzero (neg_ne_zero.mpr yNonzero)]

/-! ## Numbers -/

theorem rational_eq_ofGaussian (q : Rat) : Formal.rational q = .ofGaussian (.ofRat q) := rfl

theorem imaginary_eq_ofGaussian {y : Rat} (nonzero : y ≠ 0) :
    imaginary y = .ofGaussian ⟨0, y⟩ := by
  rw [ofGaussian, if_neg nonzero]
  rfl

/-- An expression in Cartesian form is a multiple of the unit, after a rational unless that is
zero. -/
theorem ofGaussian_of_im_ne_zero {u : Gaussian} (nonreal : u.im ≠ 0) : ofGaussian u =
    if u.re = 0 then imaginary u.im else .node .sum [.rational u.re, imaginary u.im] := by
  rw [ofGaussian, if_neg nonreal]
  rfl

theorem gaussian?_imaginary (y : Rat) : (imaginary y).gaussian? = some ⟨0, y⟩ := by
  rcases imaginary_cases y with ⟨rfl, unit⟩ | ⟨-, product⟩
  · rw [unit]
    rfl
  · rw [product]
    simp [gaussian?, gaussians?, Gaussian.ext_iff, Gaussian.ofRat]

theorem gaussian?_ofGaussian (u : Gaussian) : (ofGaussian u).gaussian? = some u := by
  by_cases real : u.im = 0
  · rw [ofGaussian, if_pos real]
    exact congrArg some (Gaussian.ext rfl real.symm)
  · rw [ofGaussian_of_im_ne_zero real]
    split
    next zero =>
      rw [gaussian?_imaginary]
      exact congrArg some (Gaussian.ext zero.symm rfl)
    next =>
      simp [gaussian?, gaussians?, gaussian?_imaginary, Gaussian.ext_iff, Gaussian.ofRat]

theorem hasLetters_imaginary (y : Rat) : (imaginary y).hasLetters = false := by
  rcases imaginary_cases y with ⟨-, unit⟩ | ⟨-, product⟩
  · rw [unit]
    rfl
  · rw [product]
    rfl

theorem hasLetters_ofGaussian (u : Gaussian) : (ofGaussian u).hasLetters = false := by
  by_cases real : u.im = 0
  · rw [ofGaussian, if_pos real]
    rfl
  · rw [ofGaussian_of_im_ne_zero real]
    split
    next => exact hasLetters_imaginary u.im
    next => simp [hasLetters, anyLetters, hasLetters_imaginary]

/-- An expression in Cartesian form amounts to the number that it is made from. -/
theorem number_ofGaussian (u : Gaussian) : (ofGaussian u).number = .exact u := by
  have parts : (ofGaussian u).parts = .ofGaussian u := by
    simp only [Formal.parts, partsWithin, gaussian?_ofGaussian]
  rw [number, parts]
  by_cases real : u.im = 0
  · simp [Parts.ofGaussian, isZero, Scalar.isZero, Scalar.value?, rational?, real, Gaussian.ofRat,
      Gaussian.ext_iff]
  · simp [Parts.ofGaussian, isZero, Scalar.isZero, Scalar.value?, rational?, real]

end ExactRoots.Formal
