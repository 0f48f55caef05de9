import ExactRoots.Poly
import ExactRoots.Proofs.Coefficients.Evaluation
import ExactRoots.Proofs.Value.Kinds

/-!
# Polynomials with exact coefficients

A polynomial that is built from exact coefficients stores the canonical ones without
leading zeros, and there is only one such list for a polynomial over the Gaussian
rationals.  Polynomials are therefore equal exactly when they denote the same one, which
their values at rational points tell.
-/

namespace ExactRoots

open Polynomial Outcome

namespace Value

theorem IsRational.isGaussian {v : Value} (rational : v.IsRational) : v.IsGaussian := by
  rcases rational.cases with ⟨n, rfl⟩ | ⟨q, rfl⟩ <;> rfl

theorem IsGaussian.isNumber {v : Value} (exact : v.IsGaussian) : v.isNumber = true := by
  cases v <;> first | rfl | contradiction

end Value

namespace Gaussian

/-- Polynomials that have the same value at every rational point are the same. -/
theorem eq_of_eval_ofRat {f g : Gaussian[X]} (same : ∀ q, eval (ofRat q) f = eval (ofRat q) g) :
    f = g := by
  have injective : Function.Injective ofRat := fun p q equal => congrArg re equal
  apply eq_of_infinite_eval_eq
  apply (Set.infinite_range_of_injective injective).mono
  rintro _ ⟨q, rfl⟩
  exact same q

end Gaussian

namespace Coefficients

theorem listEquals_ofGaussians (us vs : List Gaussian) :
    Value.listEquals (ofGaussians us) (ofGaussians vs) = .ok (decide (us = vs)) := by
  induction us generalizing vs with
  | nil => cases vs <;> simp [Value.listEquals]
  | cons u us ih =>
    cases vs with
    | nil => simp [Value.listEquals]
    | cons v vs =>
      rw [ofGaussians_cons, ofGaussians_cons, Value.listEquals, Value.equals_ofGaussian, ok_bind]
      by_cases first : u = v
      · simp [first, ih]
      · simp [first]

end Coefficients

namespace Poly

open Coefficients Value

/-- A polynomial that stores the canonical coefficients, without leading zeros, of a polynomial
over the Gaussian rationals. -/
structure Represents (p : Poly) (f : Gaussian[X]) : Prop where
  canonical : p.coefficients = ofGaussians (Gaussian.strip p.coefficients.numbers)
  polynomial : p.coefficients.polynomial = f

/-- Whether a polynomial has the values of a polynomial over the Gaussian rationals at all exact
points. -/
def Evaluates (p : Poly) (f : Gaussian[X]) : Prop :=
  ∀ x : Value, x.IsGaussian → p.eval x = .ok (.ofGaussian (f.eval x.number))

/-- Whether two polynomials can be compared, and are equal exactly if they have equal values at all
rational points. -/
def ToldByValues (p q : Poly) : Prop :=
  ∃ same, p.equals q = .ok same ∧ (same = true ↔ ∀ x : Value, x.IsRational →
    ∃ v w, p.eval x = .ok v ∧ q.eval x = .ok w ∧ v.equals w = .ok true)

section Represents

variable {p q : Poly} {f g : Gaussian[X]}

theorem Represents.allGaussian (represents : p.Represents f) : p.coefficients.AllGaussian := by
  rw [represents.canonical]
  exact allGaussian_ofGaussians _

/-- There is one representation of each polynomial. -/
theorem Represents.eq_iff (left : p.Represents f) (right : q.Represents g) : p = q ↔ f = g := by
  constructor
  · rintro rfl
    rw [← left.polynomial, right.polynomial]
  · rintro rfl
    have stripped := Gaussian.polynomial_eq_iff.mp (left.polynomial.trans right.polynomial.symm)
    have coefficients : p.coefficients = q.coefficients := by
      rw [left.canonical, right.canonical, stripped]
    cases p
    cases q
    exact congrArg Poly.mk coefficients

/-- Comparing the coefficients decides whether polynomials are the same. -/
theorem Represents.equals_eq_ok (left : p.Represents f) (right : q.Represents g) :
    ∃ same, p.equals q = .ok same ∧ (same = true ↔ f = g) := by
  have compared : p.equals q = .ok (decide (Gaussian.strip p.coefficients.numbers =
      Gaussian.strip q.coefficients.numbers)) := by
    rw [← listEquals_ofGaussians, ← left.canonical, ← right.canonical, Poly.equals]
  refine ⟨_, compared, ?_⟩
  rw [decide_eq_true_iff, ← Gaussian.polynomial_eq_iff, ← left.polynomial, ← right.polynomial,
    Coefficients.polynomial, Coefficients.polynomial]

/-- A represented polynomial is evaluated exactly. -/
theorem Represents.evaluates (represents : p.Represents f) : p.Evaluates f := by
  intro x point
  rw [Poly.eval, evaluate_of_gaussian? represents.allGaussian point.gaussian?_eq,
    represents.polynomial]

/-- Represented polynomials are told apart by their values at rational points. -/
theorem Represents.toldByValues (left : p.Represents f) (right : q.Represents g) :
    ToldByValues p q := by
  rcases left.equals_eq_ok right with ⟨same, compared, decides⟩
  refine ⟨same, compared, decides.trans ?_⟩
  constructor
  · intro equal x rational
    exact ⟨_, _, left.evaluates x rational.isGaussian, right.evaluates x rational.isGaussian,
      by rw [equals_ofGaussian, equal, decide_eq_true rfl]⟩
  · intro values
    apply Gaussian.eq_of_eval_ofRat
    intro r
    rcases values (.frac r) (isRational_frac r) with ⟨v, w, evaluated, evaluated', equal⟩
    have point : (frac r).number = .ofRat r := rfl
    rw [left.evaluates (.frac r) rfl, point] at evaluated
    rw [right.evaluates (.frac r) rfl, point] at evaluated'
    cases evaluated
    cases evaluated'
    rwa [equals_ofGaussian, Except.ok.injEq, decide_eq_true_iff] at equal

theorem ofCoefficients_represents {cs : Coefficients} (exact : cs.AllGaussian) :
    ∃ p, ofCoefficients cs = .ok p ∧ p.Represents cs.polynomial := by
  refine ⟨⟨ofGaussians (Gaussian.strip cs.numbers)⟩, ?_, ?_, ?_⟩
  · simp [ofCoefficients, simplest_eq_ofGaussians exact, stripZeros_ofGaussians]
  · rw [numbers_ofGaussians, Gaussian.strip_strip]
  · rw [polynomial_ofGaussians, Gaussian.polynomial_strip, Coefficients.polynomial]

end Represents

/-- A list of numbers is taken as it is. -/
theorem ofList_map_value {cs : Coefficients} (numbers : ∀ c ∈ cs, c.isNumber = true) :
    ofList (cs.map .value) = ofCoefficients cs := by
  have accepted : (cs.map Entry.value).all isCoefficient = true := by
    simpa [isCoefficient] using numbers
  have taken : (cs.map Entry.value).mapM Entry.toValue = .ok cs := by
    rw [mapM_eq_ok_iff, List.forall₂_map_left_iff, List.forall₂_same]
    exact fun c _ => rfl
  rw [ofList, if_pos accepted, taken, ok_bind]

/-- Exact coefficients make polynomials that store the canonical ones, have the values of what the
coefficients denote, and are equal exactly if their values at all rational points are. -/
theorem toldByValues_ofArguments {cs ds : Coefficients} (exact : cs.AllGaussian)
    (exact' : ds.AllGaussian) :
    ∃ p q, ofArguments [.list (cs.map .value)] = .ok p ∧
      ofArguments [.list (ds.map .value)] = .ok q ∧
      p.Represents cs.polynomial ∧ q.Represents ds.polynomial ∧
      p.Evaluates cs.polynomial ∧ q.Evaluates ds.polynomial ∧ ToldByValues p q := by
  rcases ofCoefficients_represents exact with ⟨p, built, left⟩
  rcases ofCoefficients_represents exact' with ⟨q, built', right⟩
  refine ⟨p, q, ?_, ?_, left, right, left.evaluates, right.evaluates, left.toldByValues right⟩
  · rw [← built]
    exact ofList_map_value fun c member => (exact c member).isNumber
  · rw [← built']
    exact ofList_map_value fun d member => (exact' d member).isNumber

/-- Zeros in front and fractions that are integers make no difference. -/
theorem toldByValues_ofArguments_padded :
    let cs : Coefficients := [.frac 0, .int 0, .frac 2, .exact 0 1 (by decide)]
    let ds : Coefficients := [.int 2, .exact 0 1 (by decide)]
    cs.AllGaussian ∧ ds.AllGaussian ∧
      ∃ p q, ofArguments [.list (cs.map .value)] = .ok p ∧
        ofArguments [.list (ds.map .value)] = .ok q ∧
        p.Represents cs.polynomial ∧ q.Represents ds.polynomial ∧
        p.Evaluates cs.polynomial ∧ q.Evaluates ds.polynomial ∧ ToldByValues p q := by
  intro cs ds
  have exact : cs.AllGaussian := by simp [AllGaussian, cs, IsGaussian, gaussian?]
  have exact' : ds.AllGaussian := by simp [AllGaussian, ds, IsGaussian, gaussian?]
  exact ⟨exact, exact', toldByValues_ofArguments exact exact'⟩

end Poly

end ExactRoots
