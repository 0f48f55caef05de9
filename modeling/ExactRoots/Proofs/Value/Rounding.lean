import ExactRoots.Proofs.Value.Inexact
import ExactRoots.Value.Rounding

/-!
# Rounding inexact numbers to decimals

The largest double is an integer, so a double that is rounded to decimals is no larger.
Every inexact number can therefore be rounded to decimals, and be simplified, and the
result is an inexact number again.
-/

namespace ExactRoots

open Outcome

namespace Binary64

theorem largestNat_lt_overflowThreshold : largestNat < overflowThreshold := by decide +kernel

/-- A quotient that is at most the largest double is no larger when it is rounded to
decimals. -/
theorem roundHalfEven_div_lt {num den : Nat} (scale : Nat) (positive : 0 < den)
    (scalePositive : 0 < scale) (bounded : num ≤ largestNat * den) :
    (roundHalfEven (num * scale) den / scale : Rat) < overflowThreshold := by
  have below : ((num * scale : Nat) / den : Rat) ≤ (largestNat * scale : Nat) / (1 : Nat) := by
    rw [Nat.cast_one, div_one, div_le_iff₀ (Nat.cast_pos.mpr positive)]
    have scaled := Nat.mul_le_mul_right scale bounded
    rw [Nat.mul_right_comm] at scaled
    exact_mod_cast scaled
  have rounded := roundHalfEven_mono positive Nat.one_pos below
  rw [roundHalfEven_one] at rounded
  calc (roundHalfEven (num * scale) den / scale : Rat)
      ≤ (largestNat * scale : Nat) / scale := by gcongr
    _ = largestNat := by
        rw [Nat.cast_mul, mul_div_cancel_right₀ _ (Nat.cast_ne_zero.mpr scalePositive.ne')]
    _ < overflowThreshold := Nat.cast_lt.mpr largestNat_lt_overflowThreshold

/-- A double that is rounded to decimals is infinite only when it was. -/
theorem isInf_roundTo {x : Float} {places : Int} (nonneg : 0 ≤ places) (finite : x.isFinite = true) :
    (roundTo x places).isInf = false := by
  rw [roundTo]
  split
  next => exact isInf_of_isFinite finite
  next d form =>
    rcases ratio_le_largestNat form with ⟨bounded, positive⟩
    split
    next => exact isInf_of_isFinite finite
    next =>
      have inside : ¬ places < -308 := by omega
      simp only [if_neg inside]
      apply isInf_of_isFinite
      apply (isFinite_ofPattern _ (nearestPattern_le _ _)).mpr
      have scalePositive : 0 < Nat.pow 10 places.toNat := Nat.pow_pos (by decide)
      rw [nearestPattern_lt_iff scalePositive]
      apply roundHalfEven_div_lt _ positive scalePositive
      exact bounded.trans (Nat.le_mul_of_pos_right _ positive)

end Binary64

namespace Value

variable {v : Value} {places : Int}

theorem exists_toFloat (double : v.HasDouble) (real : ∀ re im, v ≠ complex re im) :
    ∃ x, v.toFloat = .ok x := by
  rcases double.cases with ⟨n, x, rfl, nearest⟩ | ⟨x | ⟨re, im⟩, rfl⟩
  · exact ⟨x, by rw [toFloat, nearest]⟩
  · exact ⟨x, rfl⟩
  · exact absurd rfl (real re im)

/-- The inexact form of an inexact number: a complex number without imaginary part is a double. -/
theorem toInexact_inexact (x : Inexact) :
    (inexact x).toInexact = .ok (if x.im == 0.0 then .real x.re else x) := by
  obtain x | ⟨re, im⟩ := x
  · exact congrArg Except.ok (ite_self _).symm
  · unfold toInexact tidy simplify
    by_cases zero : (im == 0.0) = true <;> simp [Inexact.re, Inexact.im, zero, ofFloat]

theorem exists_toInexact (double : v.HasDouble) : ∃ y, v.toInexact = .ok y := by
  rcases double.cases with ⟨n, x, rfl, nearest⟩ | ⟨x, rfl⟩
  · have converted : (int n).toFloat = .ok x := by rw [toFloat, nearest]
    exact ⟨.real x, by rw [toInexact]; simp [tidy, simplify, converted, Except.map]⟩
  · exact ⟨_, toInexact_inexact x⟩

theorem ofFloat_ne_complex (dropFloat : Bool) (x re im : Float) :
    ofFloat dropFloat x ≠ complex re im := by
  unfold ofFloat
  split
  · split <;> simp
  · simp

theorem ne_zero_of_ofFloat {y : Float} {q : Rat} (rational : (ofFloat true y).rational? = some q)
    (nonzero : (y == 0.0) = false) : q ≠ 0 := by
  rintro rfl
  rw [ofFloat, if_pos rfl] at rational
  split at rational
  next n integral =>
    have zero : n = 0 := by simpa [rational?] using rational
    rw [Binary64.beq_zero_of_toInt? integral, beq_eq_false_iff_ne] at nonzero
    exact nonzero zero
  next => contradiction

/-- Two doubles are the parts of a number that has an inexact form. -/
theorem exists_makeComplex (x y : Float) :
    ∃ v z, makeComplex (.float x) (.float y) = .ok v ∧ v.toInexact = .ok z := by
  have left : (Value.float x).simplest = ofFloat true x := rfl
  have right : (Value.float y).simplest = ofFloat true y := rfl
  have double := hasDouble_ofFloat x
  have double' := hasDouble_ofFloat y
  rw [makeComplex, left, right, isZero_ofFloat, ok_bind]
  split
  next =>
    rcases exists_toInexact double with ⟨z, converted⟩
    exact ⟨_, z, rfl, converted⟩
  next nonzero =>
    rw [Bool.not_eq_true] at nonzero
    split
    next p q _ rational =>
      have imaginary := ne_zero_of_ofFloat rational nonzero
      exact ⟨_, _, rfl, by rw [ofGaussian, dif_neg imaginary]; rfl⟩
    next =>
      rcases exists_toFloat double (ofFloat_ne_complex true x) with ⟨a, converted⟩
      rcases exists_toFloat double' (ofFloat_ne_complex true y) with ⟨b, converted'⟩
      exact ⟨.complex a b, _, by rw [converted, converted']; rfl, toInexact_inexact _⟩

/-- A double can be rounded to decimals and stays a double. -/
theorem exists_roundReal (nonneg : 0 ≤ places) (x : Float) :
    ∃ y, roundReal places (.float x) = .ok (.float y) := by
  refine ⟨Binary64.roundTo x places, ?_⟩
  rw [roundReal, if_neg]
  rintro infinite
  rw [Bool.and_eq_true] at infinite
  rw [Binary64.isInf_roundTo nonneg infinite.2] at infinite
  exact Bool.false_ne_true infinite.1

/-- Every inexact number can be rounded to decimals, and then has an inexact form, which is a
double if the number is one. -/
theorem exists_toInexact_round (nonneg : 0 ≤ places) (x : Inexact) :
    ∃ v y, round places (.inexact x) = .ok v ∧ v.toInexact = .ok y ∧
      (x.isReal = true → y.isReal = true) := by
  have single : ∀ x, ∃ y, round places (.float x) = .ok (.float y) := exists_roundReal nonneg
  obtain x | ⟨re, im⟩ := x
  · rcases single x with ⟨y, rounded⟩
    exact ⟨.float y, .real y, rounded, rfl, fun _ => rfl⟩
  · by_cases zero : (im == 0.0) = true
    · have tidy : (complex re im).tidy = .float re := by simp [Value.tidy, simplify, zero, ofFloat]
      rcases single re with ⟨y, rounded⟩
      refine ⟨.float y, .real y, ?_, rfl, fun _ => rfl⟩
      rw [round, isComplex, tidy]
      exact rounded
    · have tidy : (complex re im).tidy = .complex re im := by simp [Value.tidy, simplify, zero]
      rcases exists_roundReal nonneg re with ⟨a, rounded⟩
      rcases exists_roundReal nonneg im with ⟨b, rounded'⟩
      rcases exists_makeComplex a b with ⟨v, z, made, converted⟩
      refine ⟨v, z, ?_, converted, fun real => absurd real Bool.false_ne_true⟩
      rw [round, isComplex, realPart, imagPart, tidy]
      simp only [if_true, rounded, rounded', ok_bind, made]

end Value

end ExactRoots
