import ExactRoots.Proofs.Binary64.RoundedSquare
import ExactRoots.Proofs.Value.HalfAngle

/-!
# Roots of complex values

A complex value has a root with a real part that is not below zero if its size is rational, or if it
is computed from a square that is a normal number: rounding keeps such a size above the real part.
An exact real part between two doubles may be above the rounded size, and the squares of doubles
that are very small are rounded to zero.  One half is then below zero, and no root is returned.
-/

namespace ExactRoots.Value

open Outcome Binary64

variable {v h k : Value} {u : Gaussian} {x : Float} {p q : Rat}

theorem exists_toRat?_power : ∃ x, toRat? x = some (2 ^ (-511 : Int)) :=
  ⟨Binary64.ofRat (2 ^ (-511 : Int)), by decide +kernel⟩

/-- The floating size of an exact complex value is no smaller than its real part, if that is a double
and the larger one of the squares of both parts is a normal number. -/
theorem dominates_floatRoot (value : toRat? x = some p) (normal : 2 ^ (-511 : Int) ≤ max |p| |q|)
    (short : ¬ (ofRat (p * p + q * q)).TooLong) :
    ∃ s, floatRoot (p * p + q * q) = .ok s ∧ Dominates s p := by
  have least : (0 : Rat) < 2 ^ (-511 : Int) := by positivity
  have left := mul_self_nonneg p
  have right := mul_self_nonneg q
  have positive : 0 < p * p + q * q := by
    rcases lt_max_iff.mp (least.trans_le normal) with some | some
    · exact add_pos_of_pos_of_nonneg (mul_self_pos.mpr (abs_pos.mp some)) right
    · exact add_pos_of_nonneg_of_pos left (mul_self_pos.mpr (abs_pos.mp some))
  rcases lt_or_ge (p * p + q * q) overflowThreshold with inside | outside
  · have small : |p * p + q * q| < overflowThreshold := by rwa [abs_of_pos positive]
    have same := position_valueAt (natAbs_position_lt_iff.mpr small)
    have above := toRat?_ofRat small
    refine ⟨_, floatRoot_of_lt positive inside, .inr ?_⟩
    rcases le_or_gt (2 ^ (-511 : Int)) |p| with large | little
    · exact le_sqrt_of_square value large above (same.symm ▸ position_mono (by linarith))
    · -- the other part is the larger one, and so is the power of two that is below it
      have large := (le_max_iff.mp normal).resolve_left (not_le.mpr little)
      rcases exists_toRat?_power with ⟨w, power⟩
      have square : (2 : Rat) ^ (-511 : Int) * 2 ^ (-511 : Int) ≤ q * q := by
        rw [← abs_mul_abs_self q]
        exact mul_self_le_mul_self least.le large
      rcases le_sqrt_of_square power (le_abs_self _) above
        (same.symm ▸ position_mono (by linarith)) with ⟨r, root, le⟩
      rw [abs_of_pos least] at le
      exact ⟨r, root, little.le.trans le⟩
  · rw [tooLong_ofRat, abs_of_pos positive, not_and, Nat.not_lt] at short
    rcases floatRoot_outside outside (short outside) with ⟨d, g, root, -, few, close⟩
    have moderate : d.log2 ≤ mostLength := Decimal.log2_le_of_le few.le (by decide)
    refine ⟨_, root, dominates_of_near value (place?_ofScientific moderate) (by positivity) ?_⟩
    rw [mul_self_le_mul_self_iff (mul_nonneg (abs_nonneg p) (by norm_num)) (by positivity)]
    calc |p| * (1 - (1 / 2 ^ 54 - 1 / 2 ^ 108)) * (|p| * (1 - (1 / 2 ^ 54 - 1 / 2 ^ 108)))
        = (1 - (1 / 2 ^ 54 - 1 / 2 ^ 108)) ^ 2 * (p * p) := by
          rw [← abs_mul_abs_self p]
          ring
      _ ≤ (1 - 7 / 10 ^ 19) * (p * p + q * q) :=
          mul_le_mul (by norm_num) (le_add_of_nonneg_right right) left (by norm_num)
      _ ≤ _ := close.ge

/-- Whether the size of a complex value is sure to be computed as no smaller than its real part: it
is rational, or the real part is a double and the larger one of the squares of both parts is a
normal number. -/
def SafelySized (v : Value) (u : Gaussian) : Prop :=
  v.IsGaussian ∧ IsSquare u.normSq ∨
    (∃ x, toRat? x = some u.re) ∧ 2 ^ (-511 : Int) ≤ max |u.re| |u.im| ∧
      (v.IsGaussian → ¬ (ofRat u.normSq).TooLong)

/-- Whether a computation ends in two values that are not below zero. -/
def GivesNonneg (outcome : Except Fault (Value × Value)) : Prop :=
  ∃ h k, outcome = .ok (h, k) ∧ h.IsNonneg ∧ k.IsNonneg

theorem givesNonneg_of_rational {t : Rat} (le : |p| ≤ t) : GivesNonneg (halve (ofRat p) (ofRat t)) := by
  rcases abs_le.mp le with ⟨lower, upper⟩
  exact ⟨_, _, halve_ofRat p t, isNonneg_ofRat.mpr (by linarith), isNonneg_ofRat.mpr (by linarith)⟩

theorem givesNonneg_of_dominates {y : Float} (value : toRat? x = some p) (dominates : Dominates y p) :
    GivesNonneg (.ok (ofFloat true ((x + y) / 2.0), ofFloat true ((y - x) / 2.0))) := by
  rcases dominates.halves_nonneg value with ⟨outer, inner⟩
  exact ⟨_, _, rfl, isNonneg_ofFloat.mpr outer, isNonneg_ofFloat.mpr inner⟩

theorem givesNonneg_float {y : Float} (value : toRat? x = some p) (value' : toRat? y = some q)
    (normal : 2 ^ (-511 : Int) ≤ max |p| |q|) : GivesNonneg (halves (.float x) (.float y)) := by
  rcases exists_halves_float value value' with ⟨z, alike, computed⟩
  rw [computed]
  apply givesNonneg_of_dominates value
  rcases alike with rfl | ⟨r, root, same⟩
  · exact (le_sqrt_of_squares value value' normal).imp_right fun ⟨r, root, le⟩ =>
      ⟨r, root, (le_max_left _ _).trans le⟩
  · rcases le_sqrt_of_squares value value' normal with unbounded | ⟨r', root', le⟩
    · rw [unbounded.toRat?_eq_none] at root
      contradiction
    · rw [root, Option.some.injEq] at root'
      exact .inr ⟨r, same, root' ▸ (le_max_left _ _).trans le⟩

theorem givesNonneg_of_square {t : Rat} (square : p * p + q * q = t * t) :
    GivesNonneg (halves (ofRat p) (ofRat q)) := by
  rw [halves_ofRat_eq, square, ← abs_mul_abs_self t, rationalRoot_mul_self (abs_nonneg t), ok_bind]
  refine givesNonneg_of_rational (abs_le_iff_mul_self_le.mpr ?_)
  rw [← square]
  exact le_add_of_nonneg_right (mul_self_nonneg q)

theorem givesNonneg_ofRat (value : toRat? x = some p) (normal : 2 ^ (-511 : Int) ≤ max |p| |q|)
    (short : ¬ (ofRat (p * p + q * q)).TooLong) : GivesNonneg (halves (ofRat p) (ofRat q)) := by
  by_cases square : IsSquare (p * p + q * q)
  · exact givesNonneg_of_square square.choose_spec
  have nonneg : 0 ≤ p * p + q * q := add_nonneg (mul_self_nonneg p) (mul_self_nonneg q)
  rcases dominates_floatRoot value normal short with ⟨s, computed, dominates⟩
  rw [halves_ofRat_eq, rationalRoot_of_not_isSquare nonneg square, computed]
  change GivesNonneg (halve (ofRat p) (ofFloat true s))
  rw [ofFloat, if_pos rfl]
  split
  next n whole =>
    rw [toInt?_eq_some_iff] at whole
    rcases dominates with unbounded | ⟨r, same, le⟩
    · rw [unbounded.toRat?_eq_none] at whole
      contradiction
    · rw [whole, Option.some.injEq] at same
      rw [← ofRat_intCast]
      exact givesNonneg_of_rational (same ▸ le)
  next =>
    rcases exists_position_of_toRat? value with ⟨small, value'⟩
    rw [halve_ofRat_float small, halve_float]
    exact givesNonneg_of_dominates value' dominates

/-! ## Complex values -/

/-- The parts of a complex value are rationals or doubles. -/
theorem parts_of_amount? (denoted : v.amount? = some u) (nonreal : u.im ≠ 0) : v.isComplex = true ∧
    (v.IsGaussian ∧ v.realPart = ofRat u.re ∧ v.imagPart = ofRat u.im ∨
      ¬ v.IsGaussian ∧ ∃ x y, v.realPart = .float x ∧ v.imagPart = .float y ∧
        toRat? x = some u.re ∧ toRat? y = some u.im) := by
  have exact (number : v.gaussian? = some u) : v.isComplex = true ∧
      (v.IsGaussian ∧ v.realPart = ofRat u.re ∧ v.imagPart = ofRat u.im) := by
    refine ⟨?_, by rw [IsGaussian, number]; rfl, realPart_of_gaussian? number,
      imagPart_of_gaussian? number⟩
    rw [isComplex_of_gaussian? number, decide_eq_true nonreal]
  cases v with
  | decimal d =>
    rcases Option.map_eq_some_iff.mp denoted with ⟨q, -, rfl⟩
    contradiction
  | inexact a =>
    cases a with
    | real x =>
      rcases Option.map_eq_some_iff.mp denoted with ⟨q, -, rfl⟩
      contradiction
    | complex x y =>
      rcases Option.bind_eq_some_iff.mp denoted with ⟨p, value, rest⟩
      rcases Option.map_eq_some_iff.mp rest with ⟨q, value', rfl⟩
      have nonzero : (y == 0.0) = false := by
        rw [Bool.eq_false_iff, Ne, beq_zero_iff_toRat?, value', Option.some.injEq]
        exact nonreal
      have tidied : tidy (.complex x y) = .complex x y := by
        simp [tidy, simplify, nonzero]
      refine ⟨by rw [isComplex, tidied], .inr ⟨by simp [IsGaussian, gaussian?], x, y, ?_, ?_,
        value, value'⟩⟩
      · rw [realPart, tidied]
      · rw [imagPart, tidied]
  | _ =>
    rcases exact denoted with ⟨plane, parts⟩
    exact ⟨plane, .inl parts⟩

section Amount

variable (denoted : v.amount? = some u) (nonreal : u.im ≠ 0)

include denoted nonreal

theorem givesHalves_of_amount? : GivesHalves (halves v.realPart v.imagPart) ∨
    (∃ fault, halves v.realPart v.imagPart = .error fault) ∧ v.IsGaussian ∧
      (overflowThreshold ≤ |u.re| ∨ (ofRat u.normSq).TooLong) := by
  obtain ⟨-, ⟨exact, re, im⟩ | ⟨-, x, y, re, im, value, value'⟩⟩ := parts_of_amount? denoted nonreal
  · rw [re, im]
    exact (givesHalves_ofRat nonreal).imp_right fun ⟨failed, cause⟩ => ⟨failed, exact, cause⟩
  · rw [re, im]
    exact .inl (givesHalves_float value value')

theorem givesNonneg_of_safelySized (safe : v.SafelySized u) :
    GivesNonneg (halves v.realPart v.imagPart) := by
  obtain ⟨-, ⟨exact, re, im⟩ | ⟨rough, x, y, re, im, value, value'⟩⟩ :=
    parts_of_amount? denoted nonreal
  · rw [re, im]
    rcases safe with ⟨-, t, square⟩ | ⟨⟨x, value⟩, normal, short⟩
    · exact givesNonneg_of_square square
    · exact givesNonneg_ofRat value normal (short exact)
  · rw [re, im]
    rcases safe with ⟨exact, -⟩ | ⟨-, normal, -⟩
    · exact absurd exact rough
    · exact givesNonneg_float value value' normal

theorem sqrt_eq_complexRoot : v.sqrt = complexRoot v.realPart v.imagPart := by
  rw [sqrt, (parts_of_amount? denoted nonreal).1, if_pos rfl]

theorem sqrt_of_halves (computed : halves v.realPart v.imagPart = .ok (h, k)) :
    ∃ negative, v.sqrt = fromHalves negative h k := by
  obtain ⟨negative, signed⟩ : ∃ negative, v.imagPart.isBelowZero = .ok negative := by
    obtain ⟨-, ⟨-, -, im⟩ | ⟨-, x, y, -, im, -⟩⟩ := parts_of_amount? denoted nonreal
    · exact ⟨_, im ▸ isBelowZero_ofRat u.im⟩
    · exact ⟨_, by rw [im]; rfl⟩
  exact ⟨negative, by
    rw [sqrt_eq_complexRoot denoted nonreal, complexRoot_of_halves computed signed]⟩

/-- The root of a complex value with finite parts is a value with a real part that is not below zero
whenever neither half is below zero.  From a half below zero no value is made, unless the half is too
small for a double.  Both halves are there and not below zero if the size is rational, or the real
part is a double and one of the parts has a square that is a normal number. -/
theorem sqrt_complex :
    (∀ h k, halves v.realPart v.imagPart = .ok (h, k) → ¬ h.TooLong → ¬ k.TooLong →
      (h.IsNonneg ∧ k.IsNonneg ∧ ∃ r, v.sqrt = .ok r ∧ r.realPart.IsNonneg) ∨
        ∃ half, (half = h ∨ half = k) ∧ half.IsNegative ∧
          (half.TooSmall ∨ ∃ fault, v.sqrt = .error fault)) ∧
    (∀ fault, halves v.realPart v.imagPart = .error fault →
      (∃ fault, v.sqrt = .error fault) ∧ v.IsGaussian ∧
        (overflowThreshold ≤ |u.re| ∨ (ofRat u.normSq).TooLong)) ∧
    (v.SafelySized u → ∃ h k, halves v.realPart v.imagPart = .ok (h, k) ∧
      h.IsNonneg ∧ k.IsNonneg) := by
  refine ⟨fun h k computed short short' => ?_, fun fault failed => ?_,
    givesNonneg_of_safelySized denoted nonreal⟩
  · rcases sqrt_of_halves denoted nonreal computed with ⟨negative, root⟩
    rw [root]
    rcases givesHalves_of_amount? denoted nonreal with ⟨h', k', same, form, form', signs⟩ |
      ⟨⟨fault, failed⟩, -⟩
    · rw [computed, Except.ok.injEq, Prod.mk.injEq] at same
      obtain ⟨rfl, rfl⟩ := same
      cases signs with
      | nonneg outer inner joint =>
        exact .inl ⟨outer, inner, fromHalves_nonneg form form' short short' negative outer inner joint⟩
      | outer outweighs =>
        refine .inr ⟨h, .inl rfl, outweighs.negative, or_iff_not_imp_left.mpr fun large => ?_⟩
        exact fromHalves_outer form form' short short' negative outweighs large
      | inner outweighs =>
        refine .inr ⟨k, .inr rfl, outweighs.negative, or_iff_not_imp_left.mpr fun large => ?_⟩
        exact fromHalves_inner form form' short short' negative outweighs large
    · rw [computed] at failed
      contradiction
  · rcases givesHalves_of_amount? denoted nonreal with ⟨h', k', same, -⟩ | ⟨-, cause⟩
    · rw [failed] at same
      contradiction
    · rw [sqrt_eq_complexRoot denoted nonreal]
      exact ⟨complexRoot_of_no_halves failed, cause⟩

end Amount

/-- The size of `-100000000000000001 + i` is rounded below its real part, and no root is returned. -/
theorem sqrt_refuses_negative_half :
    let v : Value := .exact (-100000000000000001) 1 (by decide)
    ∃ k, halves v.realPart v.imagPart = .ok (.frac (-1 / 2), k) ∧ v.sqrt = .error .unsupported := by
  exact ⟨.frac (200000000000000001 / 2), by decide +kernel, by decide +kernel⟩

/-- Both halves of `3 + i` are above zero, and the size is irrational. -/
theorem sqrt_complex_three_one :
    let v : Value := .exact 3 1 (by decide)
    v.amount? = some ⟨3, 1⟩ ∧ (1 : Rat) ≠ 0 ∧
      ∃ h k, halves v.realPart v.imagPart = .ok (h, k) ∧ h.IsNonneg ∧ k.IsNonneg := by
  have denoted : (Value.exact 3 1 (by decide)).amount? = some ⟨3, 1⟩ := rfl
  have nonreal : (⟨3, 1⟩ : Gaussian).im ≠ 0 := by decide
  refine ⟨denoted, nonreal, (sqrt_complex denoted nonreal).2.2 (.inr ⟨⟨3.0, ?_⟩, ?_, fun _ => ?_⟩)⟩
  · decide
  · decide +kernel
  · rw [tooLong_ofRat]
    decide +kernel

end ExactRoots.Value
