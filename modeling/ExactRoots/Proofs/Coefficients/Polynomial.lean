import ExactRoots.Coefficients.Basic
import ExactRoots.Proofs.Value.Exact
import ExactRoots.Proofs.Value.Plain
import Mathlib.Algebra.Polynomial.Degree.Lemmas
import Mathlib.Algebra.Polynomial.FieldDivision
import Mathlib.Data.List.DropRight
import Mathlib.Data.List.TakeWhile

/-!
# Polynomials of coefficient lists

A list of exact coefficients denotes a polynomial over the field of Gaussian
rationals.  Leading zeros do not change it, and a first coefficient that is not
zero is its leading one.
-/

namespace ExactRoots

open Polynomial Outcome

namespace Gaussian

/-- The polynomial with the given coefficients, from the highest power down. -/
noncomputable def polynomial : List Gaussian → Gaussian[X]
  | [] => 0
  | u :: us => C u * X ^ us.length + polynomial us

@[simp]
theorem polynomial_nil : polynomial [] = 0 := rfl

theorem polynomial_cons (u : Gaussian) (us : List Gaussian) :
    polynomial (u :: us) = C u * X ^ us.length + polynomial us := rfl

@[simp]
theorem polynomial_singleton (u : Gaussian) : polynomial [u] = C u := by
  simp [polynomial_cons]

theorem degree_polynomial_lt (us : List Gaussian) :
    (polynomial us).degree < us.length := by
  induction us with
  | nil => simp
  | cons u us ih =>
    rw [polynomial_cons, List.length_cons]
    have below : ((us.length : Nat) : WithBot Nat) < ((us.length + 1 : Nat) : WithBot Nat) :=
      Nat.cast_lt.mpr (Nat.lt_succ_self _)
    exact lt_of_le_of_lt (degree_add_le _ _)
      (max_lt (lt_of_le_of_lt (degree_C_mul_X_pow_le _ _) below) (ih.trans below))

/-- A first coefficient that is not zero gives the degree. -/
theorem degree_polynomial_cons {u : Gaussian} (nonzero : u ≠ 0) (us : List Gaussian) :
    (polynomial (u :: us)).degree = us.length := by
  have top : (C u * X ^ us.length : Gaussian[X]).degree = us.length :=
    degree_C_mul_X_pow us.length nonzero
  rw [polynomial_cons, degree_add_eq_left_of_degree_lt, top]
  rw [top]
  exact degree_polynomial_lt us

theorem polynomial_cons_ne_zero {u : Gaussian} (nonzero : u ≠ 0) (us : List Gaussian) :
    polynomial (u :: us) ≠ 0 := by
  intro vanishes
  have degree := degree_polynomial_cons nonzero us
  simp [vanishes] at degree

theorem coeff_polynomial_cons (u : Gaussian) (us : List Gaussian) :
    (polynomial (u :: us)).coeff us.length = u := by
  have rest : (polynomial us).coeff us.length = 0 :=
    coeff_eq_zero_of_degree_lt (degree_polynomial_lt us)
  rw [polynomial_cons, coeff_add, rest]
  simp

/-- Where the first coefficient has the power of the degree, it is the leading one
and not zero. -/
theorem leading_of_natDegree_eq {u : Gaussian} {us : List Gaussian} (nonempty : us ≠ [])
    (degree : (polynomial (u :: us)).natDegree = us.length) :
    u ≠ 0 ∧ (polynomial (u :: us)).leadingCoeff = u := by
  have leading : (polynomial (u :: us)).leadingCoeff = u := by
    rw [leadingCoeff, degree, coeff_polynomial_cons]
  constructor
  · rintro rfl
    rw [leadingCoeff_eq_zero.mp leading, natDegree_zero] at degree
    exact nonempty (List.length_eq_zero_iff.mp degree.symm)
  · exact leading

/-- The coefficients from the first nonzero one on. -/
def strip (us : List Gaussian) : List Gaussian := us.dropWhile (· = 0)

@[simp]
theorem polynomial_strip (us : List Gaussian) : polynomial (strip us) = polynomial us := by
  induction us with
  | nil => rfl
  | cons u us ih =>
    by_cases zero : u = 0
    · simpa [strip, zero, polynomial_cons] using ih
    · simp [strip, zero]

theorem strip_eq_nil_iff {us : List Gaussian} : strip us = [] ↔ ∀ u ∈ us, u = 0 := by
  simp [strip, List.dropWhile_eq_nil_iff]

theorem ne_zero_of_strip_eq_cons {us vs : List Gaussian} {u : Gaussian}
    (stripped : strip us = u :: vs) : u ≠ 0 := by
  intro zero
  have first := List.head?_dropWhile_not (fun u : Gaussian => decide (u = 0)) us
  unfold strip at stripped
  simp [stripped, zero] at first

theorem strip_strip (us : List Gaussian) : strip (strip us) = strip us :=
  List.dropWhile_idempotent _ us

/-- Lists of one length denote the same polynomial only if they are the same. -/
theorem eq_of_polynomial_eq {us vs : List Gaussian} (length : us.length = vs.length)
    (same : polynomial us = polynomial vs) : us = vs := by
  induction us generalizing vs with
  | nil => exact (List.length_eq_zero_iff.mp length.symm).symm
  | cons u us ih =>
    rcases vs with _ | ⟨v, vs⟩
    · contradiction
    · have rest : us.length = vs.length := Nat.succ.inj length
      obtain rfl : u = v := by
        rw [← coeff_polynomial_cons u us, same, rest, coeff_polynomial_cons]
      rw [polynomial_cons, polynomial_cons, rest, add_right_inj] at same
      rw [ih rest same]

/-- The coefficients that are left without leading zeros are told by the polynomial. -/
theorem polynomial_eq_iff {us vs : List Gaussian} :
    polynomial us = polynomial vs ↔ strip us = strip vs := by
  rw [← polynomial_strip us, ← polynomial_strip vs]
  constructor
  · intro same
    cases left : strip us with
    | nil =>
      cases right : strip vs with
      | nil => rfl
      | cons v vs' =>
        rw [left, right] at same
        exact absurd same.symm (polynomial_cons_ne_zero (ne_zero_of_strip_eq_cons right) vs')
    | cons u us' =>
      cases right : strip vs with
      | nil =>
        rw [left, right] at same
        exact absurd same (polynomial_cons_ne_zero (ne_zero_of_strip_eq_cons left) us')
      | cons v vs' =>
        rw [left, right] at same
        have degree := degree_polynomial_cons (ne_zero_of_strip_eq_cons left) us'
        rw [same, degree_polynomial_cons (ne_zero_of_strip_eq_cons right) vs'] at degree
        exact eq_of_polynomial_eq (congrArg Nat.succ (Nat.cast_injective degree).symm) same
  · exact congrArg polynomial

end Gaussian

namespace Coefficients

/-- Whether all coefficients are exact. -/
def AllGaussian (cs : Coefficients) : Prop := ∀ c ∈ cs, c.IsGaussian

/-- The numbers that exact coefficients denote. -/
def numbers (cs : Coefficients) : List Gaussian := cs.map Value.number

/-- The polynomial that exact coefficients denote. -/
noncomputable def polynomial (cs : Coefficients) : Gaussian[X] := Gaussian.polynomial cs.numbers

/-- The canonical coefficients with the given numbers. -/
def ofGaussians (us : List Gaussian) : Coefficients := us.map Value.ofGaussian

@[simp]
theorem numbers_ofGaussians (us : List Gaussian) : (ofGaussians us).numbers = us := by
  simp [numbers, ofGaussians, Function.comp_def]

theorem ofGaussians_injective : Function.Injective ofGaussians :=
  Function.LeftInverse.injective numbers_ofGaussians

@[simp]
theorem numbers_cons (c : Value) (cs : Coefficients) :
    numbers (c :: cs) = c.number :: cs.numbers := rfl

@[simp]
theorem polynomial_ofGaussians (us : List Gaussian) :
    (ofGaussians us).polynomial = Gaussian.polynomial us := by
  simp [polynomial]

@[simp]
theorem length_ofGaussians (us : List Gaussian) : (ofGaussians us).length = us.length := by
  simp [ofGaussians]

@[simp]
theorem length_numbers (cs : Coefficients) : cs.numbers.length = cs.length := by
  simp [numbers]

@[simp]
theorem ofGaussians_nil : ofGaussians [] = [] := rfl

@[simp]
theorem ofGaussians_cons (u : Gaussian) (us : List Gaussian) :
    ofGaussians (u :: us) = .ofGaussian u :: ofGaussians us := rfl

theorem allGaussian_ofGaussians (us : List Gaussian) : (ofGaussians us).AllGaussian := by
  simp [AllGaussian, ofGaussians]

/-- Canonical coefficients are in simplest form. -/
theorem simplest_of_mem_ofGaussians {us : List Gaussian} {c : Value}
    (member : c ∈ ofGaussians us) : c.simplest = c := by
  rcases List.mem_map.mp member with ⟨u, -, rfl⟩
  exact Value.simplest_ofGaussian u

/-- The simplest form of exact coefficients is canonical. -/
theorem simplest_eq_ofGaussians {cs : Coefficients} (exact : cs.AllGaussian) :
    cs.simplest = ofGaussians cs.numbers := by
  simp only [simplest, ofGaussians, numbers, List.map_map]
  exact List.map_congr_left fun c member =>
    Value.simplest_of_gaussian? (exact c member).gaussian?_eq

/-- Stripping canonical coefficients drops the zeros in front. -/
theorem stripZeros_ofGaussians (us : List Gaussian) :
    (ofGaussians us).stripZeros = .ok (ofGaussians (Gaussian.strip us)) := by
  induction us with
  | nil => rfl
  | cons u us ih =>
    have checked := Value.isZero_of_gaussian? (Value.gaussian?_ofGaussian u)
    rw [ofGaussians_cons, stripZeros, checked]
    by_cases zero : u = 0
    · simpa [zero, Gaussian.strip] using ih
    · simp [zero, Gaussian.strip]

section Stripped

variable {cs : Coefficients} {lead : Gaussian} {lower : List Gaussian}

theorem polynomial_of_strip (stripped : Gaussian.strip cs.numbers = lead :: lower) :
    cs.polynomial = Gaussian.polynomial (lead :: lower) := by
  rw [polynomial, ← Gaussian.polynomial_strip, stripped]

/-- The degree is one less than the number of coefficients that are left without
leading zeros. -/
theorem degree_of_strip (stripped : Gaussian.strip cs.numbers = lead :: lower) :
    cs.polynomial.degree = lower.length := by
  rw [polynomial_of_strip stripped,
    Gaussian.degree_polynomial_cons (Gaussian.ne_zero_of_strip_eq_cons stripped)]

theorem natDegree_of_strip (stripped : Gaussian.strip cs.numbers = lead :: lower) :
    cs.polynomial.natDegree = lower.length :=
  natDegree_eq_of_degree_eq_some (degree_of_strip stripped)

end Stripped

theorem plain_ofGaussians (us : List Gaussian) : ∀ c ∈ ofGaussians us, c.Plain := by
  intro c member
  rcases List.mem_map.mp member with ⟨u, -, rfl⟩
  exact (Value.ofGaussian_plain u).1

theorem coerceDecimals_ofGaussians (us : List Gaussian) :
    Value.coerceDecimals (ofGaussians us) = .ok (ofGaussians us) :=
  Value.coerceDecimals_of_plain (plain_ofGaussians us)

end Coefficients

end ExactRoots
