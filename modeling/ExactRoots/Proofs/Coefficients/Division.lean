import ExactRoots.Coefficients.Division
import ExactRoots.Proofs.Coefficients.Polynomial
import Mathlib.Tactic.LinearCombination

/-!
# Euclidean division

On exact coefficients the synthetic division table computes the Euclidean
quotient and remainder.  Closing a column subtracts a multiple of the divisor
from the row, so the row that is left and the columns closed so far always make
up the dividend.
-/

namespace ExactRoots.Coefficients

open Polynomial Outcome
open Gaussian (strip)

/-! ## One column -/

/-- Comparing with one decides whether the number is one. -/
theorem equals_one_ofGaussian (u : Gaussian) :
    (Value.ofGaussian u).equals (.int 1) = .ok (decide (u = 1)) :=
  Value.equals_ofGaussian u 1

/-- A closed column holds the quotient of its entry by the leading coefficient,
also above a leading one, where the entry is taken as it is. -/
theorem divideRow_succ_ofGaussian {lead : Gaussian} (nonzero : lead ≠ 0)
    (lower : Coefficients) (steps : Nat) (u : Gaussian) (row : Coefficients) :
    divideRow (.ofGaussian lead) lower (steps + 1) (.ofGaussian u :: row) = do
      let left ← subtractMultiple (.ofGaussian (u / lead)) lower row
      let rest ← divideRow (.ofGaussian lead) lower steps left
      return ⟨.ofGaussian (u / lead) :: rest.quotient, rest.remainder⟩ := by
  rw [divideRow, equals_one_ofGaussian]
  by_cases one : lead = 1
  · simp [one]
  · simp [one, Value.quo_of_gaussian? (Value.gaussian?_ofGaussian u)
      (Value.gaussian?_ofGaussian lead) nonzero]

/-- Subtracting a multiple of the lower coefficients from a row subtracts it from
the polynomial of the row, aligned at the front. -/
theorem subtractMultiple_ofGaussians (q : Gaussian) (lower row : List Gaussian)
    (fits : lower.length ≤ row.length) :
    ∃ left : List Gaussian,
      subtractMultiple (.ofGaussian q) (ofGaussians lower) (ofGaussians row) =
          .ok (ofGaussians left) ∧
        left.length = row.length ∧
        Gaussian.polynomial left = Gaussian.polynomial row -
          C q * Gaussian.polynomial lower * X ^ (row.length - lower.length) := by
  induction lower generalizing row with
  | nil => exact ⟨row, rfl, rfl, by simp⟩
  | cons d ds ih =>
    cases row with
    | nil => simp at fits
    | cons c cs =>
      have fitsRest : ds.length ≤ cs.length := Nat.le_of_succ_le_succ fits
      rcases ih cs fitsRest with ⟨rest, computed, length, denoted⟩
      rcases Value.neg_computes (Value.gaussian?_ofGaussian d) with
        ⟨negated, negation, negatedNumber⟩
      rcases Value.mul_computes (Value.gaussian?_ofGaussian q) negatedNumber with
        ⟨product, multiplication, productNumber⟩
      rcases Value.add_computes (Value.gaussian?_ofGaussian c) productNumber with
        ⟨column, addition, columnNumber⟩
      refine ⟨(c + q * -d) :: rest, ?_, by simp [length], ?_⟩
      · simp [subtractMultiple, negation, multiplication, addition, computed,
          Value.simplest_of_gaussian? columnNumber]
      · have aligned : X ^ ds.length * X ^ (cs.length - ds.length) =
            (X ^ cs.length : Gaussian[X]) := by
          rw [← pow_add, Nat.add_sub_cancel' fitsRest]
        simp only [Gaussian.polynomial_cons, length, denoted, List.length_cons,
          Nat.add_sub_add_right, C_add, C_mul, C_neg]
        linear_combination C q * C d * aligned

/-! ## The whole row -/

/-- Closing columns divides the polynomial of the row. -/
theorem divideRow_ofGaussians {lead : Gaussian} (nonzero : lead ≠ 0)
    (lower : List Gaussian) (steps : Nat) (row : List Gaussian)
    (length : row.length = steps + lower.length) :
    ∃ quotient remainder : List Gaussian,
      divideRow (.ofGaussian lead) (ofGaussians lower) steps (ofGaussians row) =
          .ok ⟨ofGaussians quotient, ofGaussians remainder⟩ ∧
        quotient.length = steps ∧ remainder.length = lower.length ∧
        Gaussian.polynomial row =
          Gaussian.polynomial (lead :: lower) * Gaussian.polynomial quotient +
            Gaussian.polynomial remainder := by
  induction steps generalizing row with
  | zero => exact ⟨[], row, by simp [divideRow], rfl, by simpa using length, by simp⟩
  | succ steps ih =>
    cases row with
    | nil =>
      rw [List.length_nil] at length
      omega
    | cons c cs =>
      have restLength : cs.length = steps + lower.length := by
        rw [List.length_cons] at length
        omega
      rcases subtractMultiple_ofGaussians (c / lead) lower cs (by omega) with
        ⟨left, subtracted, leftLength, denoted⟩
      rcases ih left (leftLength.trans restLength) with
        ⟨quotient, remainder, divided, quotientLength, remainderLength, identity⟩
      refine ⟨c / lead :: quotient, remainder, ?_, by simp [quotientLength], remainderLength, ?_⟩
      · rw [ofGaussians_cons, divideRow_succ_ofGaussian nonzero]
        simp [subtracted, divided]
      · have scaled : C lead * C (c / lead) = C c := by
          rw [← C_mul, mul_div_cancel₀ c nonzero]
        have power : (X ^ cs.length : Gaussian[X]) = X ^ lower.length * X ^ steps := by
          rw [← pow_add, restLength, Nat.add_comm]
        have shift : cs.length - lower.length = steps := by omega
        rw [shift] at denoted
        simp only [Gaussian.polynomial_cons, quotientLength] at identity ⊢
        linear_combination identity - denoted + power * C c -
          scaled * X ^ lower.length * X ^ steps

/-! ## Euclidean division -/

/-- What Euclidean division of exact coefficient lists yields: canonical
coefficients of the only quotient and remainder, in lists whose lengths follow
from the length of the dividend and the degree of the divisor. -/
structure IsEuclidean (dividend divisor : Coefficients) (division : Division) : Prop where
  quotient_canonical : ∀ c ∈ division.quotient, c.IsGaussian ∧ c.simplest = c
  remainder_canonical : ∀ c ∈ division.remainder, c.IsGaussian ∧ c.simplest = c
  identity : dividend.polynomial =
    divisor.polynomial * division.quotient.polynomial + division.remainder.polynomial
  degree_lt : division.remainder.polynomial.degree < divisor.polynomial.degree
  unique : ∀ q r : Gaussian[X], dividend.polynomial = divisor.polynomial * q + r →
    r.degree < divisor.polynomial.degree →
      q = division.quotient.polynomial ∧ r = division.remainder.polynomial
  lengths : 1 ≤ divisor.polynomial.natDegree →
    divisor.polynomial.natDegree < dividend.length →
      division.quotient.length = dividend.length - divisor.polynomial.natDegree ∧
        division.remainder.length = divisor.polynomial.natDegree
  by_constant : divisor.polynomial.natDegree = 0 → dividend ≠ [] →
    division.remainder = [.int 0] ∧ division.quotient.length = dividend.length
  by_longer : dividend.length ≤ divisor.polynomial.natDegree →
    division = ⟨[.int 0], if dividend = [] then [.int 0] else dividend.simplest⟩

/-- Quotients and remainders of smaller degree are unique. -/
theorem division_unique {p d q₁ r₁ q₂ r₂ : Gaussian[X]} (first : p = d * q₁ + r₁)
    (second : p = d * q₂ + r₂) (firstDegree : r₁.degree < d.degree)
    (secondDegree : r₂.degree < d.degree) : q₁ = q₂ ∧ r₁ = r₂ := by
  have difference : d * (q₁ - q₂) = r₂ - r₁ := by
    linear_combination second - first
  have small : (r₂ - r₁).degree < d.degree :=
    lt_of_le_of_lt (degree_sub_le _ _) (max_lt secondDegree firstDegree)
  have quotients : q₁ = q₂ := by
    by_contra distinct
    have large : d.degree ≤ (d * (q₁ - q₂)).degree := by
      rw [degree_mul]
      exact le_add_of_nonneg_right (zero_le_degree_iff.mpr (sub_ne_zero.mpr distinct))
    rw [difference] at large
    exact absurd small (not_lt_of_ge large)
  subst quotients
  constructor
  · rfl
  · exact add_left_cancel (first.symm.trans second)

/-- Canonical quotients and remainders of smaller degree are Euclidean, if their
lengths are right. -/
theorem isEuclidean_ofGaussians {dividend divisor : Coefficients}
    {quotient remainder : List Gaussian}
    (identity : dividend.polynomial =
      divisor.polynomial * Gaussian.polynomial quotient + Gaussian.polynomial remainder)
    (degree : (Gaussian.polynomial remainder).degree < divisor.polynomial.degree)
    (lengths : 1 ≤ divisor.polynomial.natDegree →
      divisor.polynomial.natDegree < dividend.length →
        quotient.length = dividend.length - divisor.polynomial.natDegree ∧
          remainder.length = divisor.polynomial.natDegree)
    (by_constant : divisor.polynomial.natDegree = 0 → dividend ≠ [] →
      remainder = [0] ∧ quotient.length = dividend.length)
    (by_longer : dividend.length ≤ divisor.polynomial.natDegree →
      quotient = [0] ∧ ofGaussians remainder =
        if dividend = [] then [.int 0] else dividend.simplest) :
    IsEuclidean dividend divisor ⟨ofGaussians quotient, ofGaussians remainder⟩ where
  quotient_canonical c member :=
    ⟨allGaussian_ofGaussians quotient c member, simplest_of_mem_ofGaussians member⟩
  remainder_canonical c member :=
    ⟨allGaussian_ofGaussians remainder c member, simplest_of_mem_ofGaussians member⟩
  identity := by simpa using identity
  degree_lt := by simpa using degree
  unique q r other small := by
    simpa using division_unique other identity small degree
  lengths proper shorter := by simpa using lengths proper shorter
  by_constant constant nonempty := by
    rcases by_constant constant nonempty with ⟨rfl, length⟩
    exact ⟨rfl, by simpa using length⟩
  by_longer longer := by
    rcases by_longer longer with ⟨rfl, remainder_eq⟩
    rw [remainder_eq]
    rfl

/-- A divisor of larger degree leaves the dividend as it is. -/
theorem divideBy_longer {lower us : List Gaussian} (longer : us.length ≤ lower.length)
    (lead : Value) :
    divideBy (ofGaussians us) lead (ofGaussians lower) =
      .ok ⟨ofGaussians [0], ofGaussians (if us = [] then [0] else us)⟩ := by
  simp only [divideBy, length_ofGaussians, longer, if_true]
  cases us <;> rfl

/-- Any other divisor that is not constant divides the row. -/
theorem divideBy_row {lower us : List Gaussian} (proper : 1 ≤ lower.length)
    (shorter : lower.length < us.length) (lead : Value) :
    divideBy (ofGaussians us) lead (ofGaussians lower) =
      divideRow lead (ofGaussians lower) (us.length - lower.length) (ofGaussians us) := by
  have nonempty : (ofGaussians lower).isEmpty = false := by
    cases lower with
    | nil => simp at proper
    | cons d ds => rfl
  simp [divideBy, Nat.not_le.mpr shorter, nonempty]

/-- A constant divides every coefficient. -/
theorem divideBy_constant {lead : Gaussian} (nonzero : lead ≠ 0) {us : List Gaussian}
    (nonempty : us ≠ []) :
    divideBy (ofGaussians us) (.ofGaussian lead) [] =
      .ok ⟨ofGaussians (us.map (· / lead)), ofGaussians [0]⟩ := by
  have positive : ¬ us.length ≤ 0 := by simpa using nonempty
  have divided : (ofGaussians us).mapM (·.quo (.ofGaussian lead)) =
      .ok (ofGaussians (us.map (· / lead))) := by
    rw [mapM_eq_ok_iff]
    simp only [ofGaussians, List.map_map, List.forall₂_map_left_iff,
      List.forall₂_map_right_iff, List.forall₂_same]
    intro u _
    exact Value.quo_of_gaussian? (Value.gaussian?_ofGaussian u)
      (Value.gaussian?_ofGaussian lead) nonzero
  simp [divideBy, positive, divided]

theorem polynomial_map_div {lead : Gaussian} (nonzero : lead ≠ 0) (us : List Gaussian) :
    Gaussian.polynomial us = C lead * Gaussian.polynomial (us.map (· / lead)) := by
  induction us with
  | nil => simp
  | cons u us ih =>
    have scaled : C lead * C (u / lead) = C u := by
      rw [← C_mul, mul_div_cancel₀ u nonzero]
    simp only [List.map_cons, Gaussian.polynomial_cons, List.length_map]
    linear_combination ih - scaled * X ^ us.length

/-- Exact coefficients are divided by the table for their canonical forms. -/
theorem divide_eq_divideBy {dividend divisor : Coefficients}
    (exactDividend : dividend.AllGaussian) (exactDivisor : divisor.AllGaussian)
    {lead : Gaussian} {lower : List Gaussian}
    (stripped : strip divisor.numbers = lead :: lower) :
    divide dividend divisor =
      divideBy (ofGaussians dividend.numbers) (.ofGaussian lead) (ofGaussians lower) := by
  have joined : ofGaussians dividend.numbers ++ ofGaussians (lead :: lower) =
      ofGaussians (dividend.numbers ++ lead :: lower) := by
    simp [ofGaussians]
  have front : (ofGaussians dividend.numbers).length = dividend.length := by simp
  rw [divide, simplest_eq_ofGaussians exactDividend, simplest_eq_ofGaussians exactDivisor,
    stripZeros_ofGaussians, stripped]
  simp only [ok_bind, joined, coerceDecimals_ofGaussians]
  rw [← joined, List.drop_left, List.take_left]
  rfl

/-- Exact coefficients without a nonzero one divide nothing. -/
theorem divide_by_zeros {dividend divisor : Coefficients}
    (exactDividend : dividend.AllGaussian) (exactDivisor : divisor.AllGaussian)
    (stripped : strip divisor.numbers = []) :
    divide dividend divisor = .error .zeroPolynomialDivisor := by
  rw [divide, simplest_eq_ofGaussians exactDividend, simplest_eq_ofGaussians exactDivisor,
    stripZeros_ofGaussians, stripped]
  have consumed : (ofGaussians dividend.numbers).drop dividend.length = [] :=
    List.drop_eq_nil_of_le (by simp)
  simp [coerceDecimals_ofGaussians, consumed]

section Cases

variable {dividend divisor : Coefficients} (exactDividend : dividend.AllGaussian)
  (exactDivisor : divisor.AllGaussian) {lead : Gaussian} {lower : List Gaussian}
  (stripped : strip divisor.numbers = lead :: lower)

include exactDividend exactDivisor stripped

/-- Division by a polynomial of larger degree is Euclidean. -/
theorem divide_longer (longer : dividend.length ≤ lower.length) :
    ∃ division, divide dividend divisor = .ok division ∧
      IsEuclidean dividend divisor division := by
  have degree := degree_of_strip stripped
  have natDegree := natDegree_of_strip stripped
  have numbersLength := length_numbers dividend
  rw [divide_eq_divideBy exactDividend exactDivisor stripped]
  refine ⟨_, divideBy_longer (by simpa using longer) _, isEuclidean_ofGaussians ?_ ?_ ?_ ?_ ?_⟩
  · cases dividend <;> simp [polynomial, numbers]
  · rw [degree]
    split
    · simp
    · exact lt_of_lt_of_le (Gaussian.degree_polynomial_lt _)
        (by rw [numbersLength]; exact_mod_cast longer)
  · omega
  · intro constant nonempty
    have empty : dividend.length = 0 := by omega
    exact absurd (List.length_eq_zero_iff.mp empty) nonempty
  · intro _
    refine ⟨rfl, ?_⟩
    rw [simplest_eq_ofGaussians exactDividend]
    cases dividend <;> rfl

/-- Division by a constant is Euclidean. -/
theorem divide_constant (constant : lower = [])
    (nonempty : dividend ≠ []) :
    ∃ division, divide dividend divisor = .ok division ∧
      IsEuclidean dividend divisor division := by
  subst constant
  have nonzero : lead ≠ 0 := Gaussian.ne_zero_of_strip_eq_cons stripped
  have natDegree := natDegree_of_strip stripped
  have numbersNonempty : dividend.numbers ≠ [] := by simpa [numbers] using nonempty
  rw [divide_eq_divideBy exactDividend exactDivisor stripped]
  refine ⟨_, divideBy_constant nonzero numbersNonempty, isEuclidean_ofGaussians ?_ ?_ ?_ ?_ ?_⟩
  · rw [polynomial_of_strip stripped, polynomial, polynomial_map_div nonzero]
    simp
  · simp [degree_of_strip stripped]
  · intro proper
    simp [natDegree] at proper
  · intro _ _
    exact ⟨rfl, by simp⟩
  · intro empty
    rw [natDegree] at empty
    exact absurd (List.length_eq_zero_iff.mp (Nat.le_zero.mp empty)) nonempty

/-- Division by any other polynomial of no larger degree is Euclidean. -/
theorem divide_proper (proper : 1 ≤ lower.length) (shorter : lower.length < dividend.length) :
    ∃ division, divide dividend divisor = .ok division ∧
      IsEuclidean dividend divisor division := by
  have nonzero : lead ≠ 0 := Gaussian.ne_zero_of_strip_eq_cons stripped
  have natDegree := natDegree_of_strip stripped
  have numbersLength := length_numbers dividend
  obtain ⟨quotient, remainder, divided, quotientLength, remainderLength, identity⟩ :=
    divideRow_ofGaussians nonzero lower (dividend.numbers.length - lower.length)
      dividend.numbers (by omega)
  rw [divide_eq_divideBy exactDividend exactDivisor stripped,
    divideBy_row proper (by omega) (.ofGaussian lead)]
  refine ⟨_, divided, isEuclidean_ofGaussians ?_ ?_ ?_ ?_ ?_⟩
  · rw [polynomial_of_strip stripped]
    exact identity
  · rw [degree_of_strip stripped, ← remainderLength]
    exact Gaussian.degree_polynomial_lt remainder
  · intro _ _
    exact ⟨by omega, by omega⟩
  · omega
  · omega

/-- Dividing exact coefficients by a divisor with a nonzero one is Euclidean
division. -/
theorem divide_isEuclidean :
    ∃ division, divide dividend divisor = .ok division ∧
      IsEuclidean dividend divisor division := by
  by_cases longer : dividend.length ≤ lower.length
  · exact divide_longer exactDividend exactDivisor stripped longer
  · by_cases constant : lower = []
    · have nonempty : dividend ≠ [] := by
        rintro rfl
        simp at longer
      exact divide_constant exactDividend exactDivisor stripped constant nonempty
    · exact divide_proper exactDividend exactDivisor stripped
        (List.length_pos_iff.mpr constant) (by omega)

end Cases

/-- Exact coefficients divide in the field of Gaussian rationals: a divisor
without a nonzero coefficient is refused, and any other one gives the Euclidean
quotient and remainder in canonical coefficients. -/
theorem divide_exact {dividend divisor : Coefficients}
    (exactDividend : dividend.AllGaussian) (exactDivisor : divisor.AllGaussian) :
    (divide dividend divisor = .error .zeroPolynomialDivisor ↔ ∀ d ∈ divisor, d.number = 0) ∧
      ((∃ d ∈ divisor, d.number ≠ 0) → ∃ division, divide dividend divisor = .ok division ∧
        IsEuclidean dividend divisor division) := by
  have zeros : strip divisor.numbers = [] ↔ ∀ d ∈ divisor, d.number = 0 := by
    simp [Gaussian.strip_eq_nil_iff, numbers]
  cases stripped : strip divisor.numbers with
  | nil =>
    constructor
    · constructor
      · intro _
        exact zeros.mp stripped
      · intro _
        exact divide_by_zeros exactDividend exactDivisor stripped
    · rintro ⟨d, member, nonzero⟩
      exact absurd (zeros.mp stripped d member) nonzero
  | cons lead lower =>
    rcases divide_isEuclidean exactDividend exactDivisor stripped with
      ⟨division, divided, euclidean⟩
    constructor
    · constructor
      · intro refused
        rw [divided] at refused
        contradiction
      · intro vanish
        rw [← zeros, stripped] at vanish
        contradiction
    · intro _
      exact ⟨division, divided, euclidean⟩

/-- The leading zero of the divisor is dropped, and its next coefficient divides
every column. -/
theorem divide_exact_nonmonic :
    let dividend : Coefficients := [.int 6, .frac (1 / 2), .exact 0 1 (by decide), .int 5]
    let divisor : Coefficients := [.int 0, .int 2, .frac (1 / 3)]
    dividend.AllGaussian ∧ divisor.AllGaussian ∧ ∃ division,
      divide dividend divisor = .ok division ∧ IsEuclidean dividend divisor division := by
  intro dividend divisor
  have exactDividend : dividend.AllGaussian := by simp [AllGaussian, dividend, Value.IsGaussian,
    Value.gaussian?]
  have exactDivisor : divisor.AllGaussian := by simp [AllGaussian, divisor, Value.IsGaussian,
    Value.gaussian?]
  have nonzero : ∃ d ∈ divisor, d.number ≠ 0 :=
    ⟨.int 2, by simp [divisor], by simp [Value.number, Value.gaussian?, Gaussian.ext_iff]⟩
  exact ⟨exactDividend, exactDivisor, (divide_exact exactDividend exactDivisor).2 nonzero⟩

end ExactRoots.Coefficients
