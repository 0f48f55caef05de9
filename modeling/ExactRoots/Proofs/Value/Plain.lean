import ExactRoots.Proofs.Binary64.Order
import ExactRoots.Proofs.Outcome
import ExactRoots.Value.Recovery
import ExactRoots.Value.Rounding

/-!
# Values without decimals

Arithmetic leads from values that are no decimals to such values again, so lists
of them are never coerced.  Bringing a value that is worked out to its simplest
form does not change whether it is zero.
-/

namespace ExactRoots.Value

open Outcome

/-- Whether a value is no decimal. -/
def Plain (v : Value) : Prop := v.isDecimal = false

@[simp]
theorem plain_int (n : Int) : (int n).Plain := rfl

@[simp]
theorem plain_frac (q : Rat) : (frac q).Plain := rfl

@[simp]
theorem plain_inexact (x : Inexact) : (inexact x).Plain := rfl

@[simp]
theorem plain_formal (e : Formal) : (formal e).Plain := rfl

@[simp]
theorem plain_text (s : String) : (text s).Plain := rfl

/-- Whether a value is no expression that is still to be worked out. -/
def Settled (v : Value) : Prop := ∀ e, v ≠ .formal e

/-! ## Simplest forms -/

section Simplify

variable (dropFloat : Bool)

theorem ofRat_plain (q : Rat) : (ofRat q).Plain ∧ (ofRat q).Settled := by
  unfold ofRat
  split <;> exact ⟨rfl, by simp [Settled]⟩

theorem ofGaussian_plain (u : Gaussian) : (ofGaussian u).Plain ∧ (ofGaussian u).Settled := by
  unfold ofGaussian
  split
  · exact ofRat_plain u.re
  · exact ⟨rfl, by simp [Settled]⟩

theorem ofFloat_plain (x : Float) :
    (ofFloat dropFloat x).Plain ∧ (ofFloat dropFloat x).Settled := by
  unfold ofFloat
  split
  · split <;> exact ⟨rfl, by simp [Settled]⟩
  · exact ⟨rfl, by simp [Settled]⟩

theorem ofNumber_plain (number : Formal.Number) :
    (ofNumber dropFloat number).Plain ∧ (ofNumber dropFloat number).Settled := by
  unfold ofNumber
  split
  · exact ofGaussian_plain _
  · exact ofFloat_plain dropFloat _
  · exact ⟨rfl, by simp [Settled]⟩

/-- The simplest form of an inexact number. -/
theorem simplify_inexact_plain (x : Inexact) :
    (simplify dropFloat (.inexact x)).Plain ∧ (simplify dropFloat (.inexact x)).Settled := by
  cases x with
  | real x => exact ofFloat_plain dropFloat x
  | complex re im =>
    rw [simplify]
    split
    · exact ofFloat_plain dropFloat re
    · exact ⟨rfl, by simp [Settled]⟩

/-- A simplest form is worked out. -/
theorem settled_simplify (v : Value) : (v.simplify dropFloat).Settled := by
  cases v with
  | frac q => exact (ofRat_plain q).2
  | inexact x => exact (simplify_inexact_plain dropFloat x).2
  | formal e => exact (ofNumber_plain dropFloat e.number).2
  | _ => simp [simplify, Settled]

/-- Only the simplest form of a decimal is a decimal. -/
theorem isDecimal_simplify (v : Value) : (v.simplify dropFloat).isDecimal = v.isDecimal := by
  cases v with
  | frac q => exact (ofRat_plain q).1
  | inexact x => exact (simplify_inexact_plain dropFloat x).1
  | formal e => exact (ofNumber_plain dropFloat e.number).1
  | _ => rfl

theorem isZero_ofRat (q : Rat) : (ofRat q).isZero = .ok (q == 0) := by
  unfold ofRat
  split
  next => simp [isZero]
  next => rfl

theorem isZero_float (x : Float) : (float x).isZero = .ok (x == 0.0) := by
  have zero : ((0.0 : Float) == 0.0) = true := by decide
  simp [isZero, Inexact.isZero, Inexact.re, Inexact.im, zero]

theorem isZero_ofFloat (x : Float) : (ofFloat dropFloat x).isZero = .ok (x == 0.0) := by
  unfold ofFloat
  split
  · split
    next n integral => rw [isZero, Binary64.beq_zero_of_toInt? integral]
    next => exact isZero_float x
  · exact isZero_float x

/-- Bringing a value that is worked out to its simplest form does not change
whether it is zero. -/
theorem isZero_simplify {v : Value} (settled : v.Settled) :
    (v.simplify dropFloat).isZero = v.isZero := by
  cases v with
  | frac q => exact isZero_ofRat q
  | inexact x =>
    cases x with
    | real x => rw [simplify, isZero_ofFloat, isZero_float]
    | complex re im =>
      rw [simplify]
      split
      next zero =>
        rw [isZero_ofFloat, isZero]
        simp only [Inexact.isZero, Inexact.re, Inexact.im, zero, Bool.and_true]
      next => rfl
  | formal e => exact absurd rfl (settled e)
  | _ => rfl

end Simplify

/-! ## Arithmetic -/

/-- What all rules lead to, two operands are combined to.  The rule for decimals only counts beside
a decimal, and the one for expressions beside an exact complex number or an expression. -/
theorem yields_combine {P : Value → Prop} {rules : Rules} {a b : Value}
    (integers : ∀ m n, Yields P (rules.integers m n))
    (rationals : ∀ p q, Yields P (rules.rationals p q))
    (gaussians : ∀ u v, Yields P (rules.gaussians u v))
    (inexacts : ∀ x y, Yields P (rules.inexacts x y))
    (decimals : a.isDecimal = true ∨ b.isDecimal = true →
      ∀ d e, Yields P (ofDecimal (rules.decimals d e)))
    (formals : (a.isFormal || b.isFormal) = true → ∀ d e, Yields P (rules.formals d e)) :
    Yields P (rules.combine a b) := by
  unfold Rules.combine
  split
  case h_10 | h_11 => exact decimals (.inl rfl) _ _
  case h_12 => exact decimals (.inr rfl) _ _
  case h_18 =>
    split
    next => exact yields_ite_iff.mpr ⟨fun formal => formals formal _ _, fun _ => yields_error _⟩
    next => exact yields_error _
  all_goals simp [integers, rationals, gaussians, inexacts]

/-- Rules that do not make decimals of other values do not do so at any operands
that are no decimals. -/
theorem combine_plain {rules : Rules}
    (integers : ∀ m n, Yields Plain (rules.integers m n))
    (rationals : ∀ p q, Yields Plain (rules.rationals p q))
    (gaussians : ∀ u v, Yields Plain (rules.gaussians u v))
    (inexacts : ∀ x y, Yields Plain (rules.inexacts x y))
    (formals : ∀ d e, Yields Plain (rules.formals d e)) {a b : Value}
    (left : a.Plain) (right : b.Plain) : Yields Plain (rules.combine a b) := by
  refine yields_combine integers rationals gaussians inexacts ?_ fun _ => formals
  rintro (decimal | decimal)
  · exact absurd decimal (Bool.eq_false_iff.mp left)
  · exact absurd decimal (Bool.eq_false_iff.mp right)

theorem add_plain {a b : Value} (left : a.Plain) (right : b.Plain) :
    Yields Plain (a.add b) := by
  have combined : Yields Plain (addRules.combine a b) := by
    apply combine_plain _ _ _ _ _ left right <;> simp [addRules, Value.ok, okFormal, ofGaussian_plain]
  unfold add
  split
  next => simp
  next => exact combined

theorem mul_plain {a b : Value} (left : a.Plain) (right : b.Plain) :
    Yields Plain (a.mul b) := by
  have combined : Yields Plain (mulRules.combine a b) := by
    apply combine_plain _ _ _ _ _ left right <;> simp [mulRules, Value.ok, okFormal, ofGaussian_plain]
  unfold mul
  split
  next => simp [repeatText]
  next => simp [repeatText]
  next => exact combined

theorem neg_plain {a : Value} (plain : a.Plain) : Yields Plain a.neg := by
  cases a with
  | decimal d => contradiction
  | exact re im nonreal => exact yields_ok.mpr (ofGaussian_plain _).1
  | text s => exact yields_error _
  | absent => exact yields_error _
  | _ => exact yields_ok.mpr rfl

theorem any_isDecimal_eq_false_iff {vs : List Value} :
    vs.any isDecimal = false ↔ ∀ v ∈ vs, v.Plain := by
  simp [Plain]

/-- A list without decimals is not coerced. -/
theorem coerceDecimals_of_plain {vs : List Value} (plain : ∀ v ∈ vs, v.Plain) :
    coerceDecimals vs = .ok vs := by
  simp [coerceDecimals, any_isDecimal_eq_false_iff.mpr plain]

end ExactRoots.Value
