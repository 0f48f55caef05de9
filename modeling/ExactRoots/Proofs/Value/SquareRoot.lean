import ExactRoots.Proofs.Value.Exact
import ExactRoots.Value.SquareRoot
import Mathlib.Algebra.Order.Ring.Abs
import Mathlib.Data.Nat.Sqrt
import Mathlib.Data.Rat.Lemmas
import Mathlib.Tactic.Linarith

/-!
# Square roots of squares

The square of a Gaussian rational has an exact square root, and the half-angle
formula finds it: all the numbers whose roots it takes on the way are squares of
rationals themselves.  Of the two roots it is the one with the larger real part,
or with the larger imaginary part on the imaginary axis.
-/

namespace ExactRoots

/-! ## Natural numbers -/

theorem floorSqrt_improve_eq_iter (n guess : Nat) :
    floorSqrt.improve n guess = Nat.sqrt.iter n guess := by
  induction guess using Nat.strong_induction_on with
  | _ guess ih =>
    rw [floorSqrt.improve, Nat.sqrt.iter]
    split
    next decreases => exact ih _ decreases
    next settled => rfl

/-- The floor root is the one of the library of natural numbers. -/
theorem floorSqrt_eq_sqrt (n : Nat) : floorSqrt n = n.sqrt := by
  rw [floorSqrt, Nat.sqrt, floorSqrt_improve_eq_iter]

/-- A perfect square has its root. -/
theorem squareRoot?_mul_self (n : Nat) : squareRoot? (n * n) = some n := by
  simp [squareRoot?, floorSqrt_eq_sqrt, Nat.sqrt_eq]

namespace Gaussian

/-- Whether a number lies to the right of the imaginary axis, or on its upper half. -/
def IsPrincipal (w : Gaussian) : Prop := 0 < w.re ∨ (w.re = 0 ∧ 0 ≤ w.im)

/-- The principal one of a number and its negative. -/
def principal (w : Gaussian) : Gaussian :=
  if w.re < 0 ∨ (w.re = 0 ∧ w.im < 0) then -w else w

theorem isPrincipal_principal (w : Gaussian) : w.principal.IsPrincipal := by
  unfold principal IsPrincipal
  split
  next flipped =>
    rcases flipped with left | ⟨axis, lower⟩
    · left
      simpa using left
    · right
      exact ⟨by simpa using axis, by simpa using lower.le⟩
  next kept =>
    rw [not_or, not_lt, not_and, not_lt] at kept
    rcases kept.1.lt_or_eq with right | axis
    · exact .inl right
    · exact .inr ⟨axis.symm, kept.2 axis.symm⟩

theorem isPrincipal_iff {w : Gaussian} : w.IsPrincipal ↔ 0 ≤ w.re ∧ (w.re = 0 → 0 ≤ w.im) := by
  constructor
  · rintro (right | ⟨axis, upper⟩)
    · exact ⟨right.le, fun axis => absurd axis right.ne'⟩
    · exact ⟨axis.ge, fun _ => upper⟩
  · rintro ⟨nonneg, upper⟩
    rcases nonneg.lt_or_eq with right | axis
    · exact .inl right
    · exact .inr ⟨axis.symm, upper axis.symm⟩

theorem principal_eq_or_eq_neg (w : Gaussian) : w.principal = w ∨ w.principal = -w := by
  unfold principal
  split
  · exact .inr rfl
  · exact .inl rfl

@[simp]
theorem principal_mul_self (w : Gaussian) : w.principal * w.principal = w * w := by
  unfold principal
  split
  · exact neg_mul_neg w w
  · rfl

end Gaussian

namespace Value

open Outcome

/-! ## Rationals -/

/-- The square of a rational that is not negative has that rational as its root. -/
theorem rationalRoot_mul_self {p : Rat} (nonneg : 0 ≤ p) :
    rationalRoot (p * p) = .ok (ofRat p) := by
  have root : mkRat |p.num| p.den = p := by
    rw [abs_of_nonneg (Rat.num_nonneg.mpr nonneg)]
    exact Rat.mkRat_self p
  simp [rationalRoot, Rat.mul_self_num, Rat.mul_self_den, Int.natAbs_mul,
    squareRoot?_mul_self, root]

/-- The root of a rational, on the imaginary axis below zero. -/
theorem realRoot_of_gaussian? {v : Value} {q : Rat} (denoted : v.gaussian? = some (.ofRat q)) :
    realRoot v =
      if q < 0 then (do makeComplex (.int 0) (← rationalRoot (-q))) else rationalRoot q := by
  have tidied : v.tidy = ofRat q := by
    rw [tidy_of_gaussian? denoted, ofGaussian_ofRat]
  have negated : ∃ w, (ofRat q).neg = .ok w ∧ nonnegRoot w = rationalRoot (-q) := by
    rw [ofRat]
    split
    next whole =>
      refine ⟨_, rfl, ?_⟩
      have number : (q.num : Rat) = q := Rat.coe_int_num_of_den_eq_one whole
      simp [nonnegRoot, number]
    next => exact ⟨_, rfl, rfl⟩
  have unsigned : nonnegRoot (ofRat q) = rationalRoot q := by
    rw [ofRat]
    split
    next whole =>
      have number : (q.num : Rat) = q := Rat.coe_int_num_of_den_eq_one whole
      simp [nonnegRoot, number]
    next => rfl
  rcases negated with ⟨w, negation, root⟩
  have opened : realRoot v = (do
      if ← (ofRat q).isBelowZero then makeComplex (.int 0) (← nonnegRoot (← (ofRat q).neg))
      else nonnegRoot (ofRat q)) := by
    rw [realRoot, tidied, ofRat]
    by_cases whole : q.den = 1
    · rw [if_pos whole]
    · rw [if_neg whole]
  rw [opened, isBelowZero_ofRat, negation]
  simp [root, unsigned]

theorem realRoot_of_nonneg {v : Value} {q : Rat} (nonneg : 0 ≤ q)
    (denoted : v.gaussian? = some (.ofRat q)) : realRoot v = rationalRoot q := by
  rw [realRoot_of_gaussian? denoted, if_neg (not_lt.mpr nonneg)]

theorem realRoot_mul_self {v : Value} {p : Rat} (nonneg : 0 ≤ p)
    (denoted : v.gaussian? = some (.ofRat (p * p))) : realRoot v = .ok (ofRat p) := by
  rw [realRoot_of_nonneg (mul_self_nonneg p) denoted, rationalRoot_mul_self nonneg]

theorem realRoot_neg_mul_self {v : Value} {p : Rat} (positive : 0 < p)
    (denoted : v.gaussian? = some (.ofRat (-(p * p)))) :
    realRoot v = .ok (ofGaussian ⟨0, p⟩) := by
  have negative : -(p * p) < 0 := neg_neg_of_pos (mul_pos positive positive)
  rw [realRoot_of_gaussian? denoted, if_pos negative, neg_neg,
    rationalRoot_mul_self positive.le]
  exact makeComplex_of_gaussian? (p := 0) rfl (gaussian?_ofRat p)

/-! ## Complex numbers -/

/-- The root of the half of a sum or a difference. -/
def halfRoot (whole : Except Fault Value) : Except Fault Value := do
  realRoot (← quo (← whole) (.int 2))

/-- The half of a rational is a rational. -/
theorem quo_two {v : Value} {q : Rat} (denoted : v.gaussian? = some (.ofRat q)) :
    v.quo (.int 2) = .ok (ofRat (q / 2)) := by
  have nonzero : Gaussian.ofRat 2 ≠ 0 := by
    intro vanishes
    simpa using congrArg Gaussian.re vanishes
  have half := quo_of_gaussian? (b := .int 2) (v := .ofRat 2) denoted rfl nonzero
  rwa [← Gaussian.ofRat_div, ofGaussian_ofRat] at half

theorem halfRoot_computes {whole : Except Fault Value} {p : Rat} (exact : Computes whole (.ofRat p))
    (nonneg : 0 ≤ p) : halfRoot whole = rationalRoot (p / 2) := by
  rcases exact with ⟨v, computed, number⟩
  simp only [halfRoot, computed, ok_bind, quo_two number]
  exact realRoot_of_nonneg (div_nonneg nonneg two_pos.le) (gaussian?_ofRat _)

/-- The squared size of an exact complex value is a rational. -/
theorem squares_compute (p q : Rat) : ∃ a b c, (ofRat p).mul (ofRat p) = .ok a ∧
    (ofRat q).mul (ofRat q) = .ok b ∧ a.add b = .ok c ∧
    c.gaussian? = some (.ofRat (p * p + q * q)) := by
  rcases mul_computes (gaussian?_ofRat p) (gaussian?_ofRat p) with ⟨reSquare, reSquared, reNumber⟩
  rcases mul_computes (gaussian?_ofRat q) (gaussian?_ofRat q) with ⟨imSquare, imSquared, imNumber⟩
  rcases add_computes reNumber imNumber with ⟨square, added, number⟩
  rw [← Gaussian.ofRat_mul, ← Gaussian.ofRat_mul, ← Gaussian.ofRat_add] at number
  exact ⟨_, _, _, reSquared, imSquared, added, number⟩

/-- The half-angle formula takes the root of the squared size, and then those of both halves. -/
theorem complexRoot_eq (p q : Rat) :
    complexRoot (ofRat p) (ofRat q) = (do
      let size ← rationalRoot (p * p + q * q)
      let x ← halfRoot ((ofRat p).add size)
      let y ← halfRoot (size.sub (ofRat p))
      let y ← if q < 0 then y.neg else pure y
      makeComplex x y) := by
  rcases squares_compute p q with ⟨_, _, _, reSquared, imSquared, added, number⟩
  have nonneg : 0 ≤ p * p + q * q := add_nonneg (mul_self_nonneg p) (mul_self_nonneg q)
  simp only [complexRoot, halfRoot, reSquared, imSquared, added, isBelowZero_ofRat, ok_bind,
    decide_eq_true_eq, realRoot_of_nonneg nonneg number, bind_assoc]

/-- The half-angle formula where the size and both halves are squares of
rationals. -/
theorem complexRoot_of_squares {p q t a b : Rat} (size : p * p + q * q = t * t)
    (sizeNonneg : 0 ≤ t) (outer : (p + t) / 2 = a * a) (outerNonneg : 0 ≤ a)
    (inner : (t - p) / 2 = b * b) (innerNonneg : 0 ≤ b) :
    complexRoot (ofRat p) (ofRat q) = .ok (ofGaussian ⟨a, if q < 0 then -b else b⟩) := by
  have sum := add_computes (gaussian?_ofRat p) (gaussian?_ofRat t)
  have gap := sub_computes (gaussian?_ofRat t) (gaussian?_ofRat p)
  rw [← Gaussian.ofRat_add] at sum
  rw [← Gaussian.ofRat_sub] at gap
  have sumNonneg : 0 ≤ p + t := by linarith [mul_self_nonneg a]
  have gapNonneg : 0 ≤ t - p := by linarith [mul_self_nonneg b]
  rcases neg_computes (gaussian?_ofRat b) with ⟨negated, negation, negatedNumber⟩
  rw [← Gaussian.ofRat_neg] at negatedNumber
  simp only [complexRoot_eq, size, rationalRoot_mul_self sizeNonneg,
    halfRoot_computes sum sumNonneg, halfRoot_computes gap gapNonneg, outer, inner,
    rationalRoot_mul_self outerNonneg, rationalRoot_mul_self innerNonneg, ok_bind, negation]
  by_cases negative : q < 0
  · simpa [negative] using makeComplex_of_gaussian? (gaussian?_ofRat a) negatedNumber
  · simpa [negative] using makeComplex_of_gaussian? (gaussian?_ofRat a) (gaussian?_ofRat b)

/-- The half-angle formula for the square of a number to the right of the imaginary axis. -/
theorem complexRoot_mul_self {a b : Rat} (right : 0 < a) :
    complexRoot (ofRat (a * a - b * b)) (ofRat (a * b + b * a)) = .ok (ofGaussian ⟨a, b⟩) := by
  have sign : a * b + b * a < 0 ↔ b < 0 := by
    constructor
    · intro below
      nlinarith
    · intro below
      nlinarith [mul_neg_of_pos_of_neg right below]
  have restored : (if a * b + b * a < 0 then -|b| else |b|) = b := by
    rw [if_congr sign rfl rfl]
    split
    next below => rw [abs_of_neg below, neg_neg]
    next above => rw [abs_of_nonneg (not_lt.mp above)]
  have root := complexRoot_of_squares (p := a * a - b * b) (q := a * b + b * a)
    (t := a * a + b * b) (a := a) (b := |b|) (by ring)
    (add_nonneg (mul_self_nonneg a) (mul_self_nonneg b)) (by ring) right.le
    (by rw [abs_mul_abs_self]; ring) (abs_nonneg b)
  rwa [restored] at root

/-- The square root of the square of a principal number is that number. -/
theorem sqrt_mul_self_of_isPrincipal {v : Value} {w : Gaussian} (principal : w.IsPrincipal)
    (denoted : v.gaussian? = some (w * w)) : v.sqrt = .ok (ofGaussian w) := by
  rcases w with ⟨a, b⟩
  have product : (⟨a, b⟩ * ⟨a, b⟩ : Gaussian) = ⟨a * a - b * b, a * b + b * a⟩ := rfl
  rw [product] at denoted
  rw [sqrt, isComplex_of_gaussian? denoted, realPart_of_gaussian? denoted,
    imagPart_of_gaussian? denoted]
  rcases principal with right | ⟨axis, upper⟩
  · change 0 < a at right
    by_cases real : b = 0
    · subst real
      have square : v.gaussian? = some (.ofRat (a * a)) := by
        simpa [Gaussian.ofRat] using denoted
      simpa [ofGaussian] using realRoot_mul_self right.le square
    · have nonreal : a * b + b * a ≠ 0 := by
        have doubled : a * b + b * a = 2 * (a * b) := by ring
        rw [doubled]
        exact mul_ne_zero two_ne_zero (mul_ne_zero right.ne' real)
      simpa [nonreal] using complexRoot_mul_self right
  · change a = 0 at axis
    change 0 ≤ b at upper
    subst axis
    rcases upper.lt_or_eq with positive | zero
    · have square : v.gaussian? = some (.ofRat (-(b * b))) := by
        simpa [Gaussian.ofRat] using denoted
      simpa using realRoot_neg_mul_self positive square
    · subst zero
      have square : v.gaussian? = some (.ofRat (0 * 0)) := by
        simpa [Gaussian.ofRat] using denoted
      simpa [ofGaussian] using realRoot_mul_self le_rfl square

/-- The square root of a square is exact and principal. -/
theorem sqrt_mul_self {v : Value} {w : Gaussian} (denoted : v.gaussian? = some (w * w)) :
    v.sqrt = .ok (ofGaussian w.principal) :=
  sqrt_mul_self_of_isPrincipal w.isPrincipal_principal (by rw [w.principal_mul_self, denoted])

/-- Squares have an exact square root in simplest form.  Of the two numbers with that square it
is the one on the right of the imaginary axis, or on the upper half of it. -/
theorem sqrt_of_square {v : Value} {w : Gaussian} (denoted : v.gaussian? = some (w * w)) :
    ∃ r, v.sqrt = .ok r ∧ r.IsGaussian ∧ r.simplest = r ∧
      (r.number = w ∨ r.number = -w) ∧ 0 ≤ r.number.re ∧
      (r.number.re = 0 → 0 ≤ r.number.im) := by
  refine ⟨ofGaussian w.principal, sqrt_mul_self denoted, isGaussian_ofGaussian _,
    simplest_ofGaussian _, ?_⟩
  rw [number_ofGaussian]
  exact ⟨w.principal_eq_or_eq_neg, Gaussian.isPrincipal_iff.mp w.isPrincipal_principal⟩

/-- The square of `-2 - i` has the root `2 + i`. -/
theorem sqrt_of_square_left :
    (Value.exact 3 4 (by decide)).gaussian? = some ((⟨-2, -1⟩ : Gaussian) * ⟨-2, -1⟩) ∧
      ∃ r, (Value.exact 3 4 (by decide)).sqrt = .ok r ∧ r.IsGaussian ∧
        r.simplest = r ∧
        (r.number = ⟨-2, -1⟩ ∨ r.number = -⟨-2, -1⟩) ∧ 0 ≤ r.number.re ∧
        (r.number.re = 0 → 0 ≤ r.number.im) := by
  have denoted : (Value.exact 3 4 (by decide)).gaussian? =
      some ((⟨-2, -1⟩ : Gaussian) * ⟨-2, -1⟩) := by decide +kernel
  exact ⟨denoted, sqrt_of_square denoted⟩

end Value

end ExactRoots
