import ExactRoots.Proofs.Value.Kinds

/-!
# Results that are numbers

Texts can be added and repeated, but from numbers every operation leads to numbers
again: the arithmetic of any two numbers, quotients, rounding and the conversion of
lists that mix decimals with other kinds.
-/

namespace ExactRoots.Value

open Outcome

/-- Whether a computation leads to a number, if it leads to a value. -/
abbrev GivesNumber (outcome : Except Fault Value) : Prop :=
  Yields (·.isNumber = true) outcome

@[simp]
theorem isNumber_int (n : Int) : (int n).isNumber = true := rfl

@[simp]
theorem isNumber_frac (q : Rat) : (frac q).isNumber = true := rfl

@[simp]
theorem isNumber_decimal (d : Decimal) : (decimal d).isNumber = true := rfl

@[simp]
theorem isNumber_inexact (x : Inexact) : (inexact x).isNumber = true := rfl

@[simp]
theorem isNumber_formal (e : Formal) : (formal e).isNumber = true := rfl

@[simp]
theorem isNumber_ofGaussian (u : Gaussian) : (ofGaussian u).isNumber = true :=
  (plainNumber_ofGaussian u).number

@[simp]
theorem givesNumber_ofDecimal (result : Except DecimalSignal Decimal) :
    GivesNumber (ofDecimal result) := by
  cases result <;> simp [ofDecimal]

/-! ## Arithmetic -/

section Arithmetic

variable {a b : Value}

/-- What the rules of every kind lead to are numbers, and so is what they are combined to. -/
theorem givesNumber_combine {rules : Rules} (integers : ∀ m n, GivesNumber (rules.integers m n))
    (rationals : ∀ p q, GivesNumber (rules.rationals p q))
    (gaussians : ∀ u v, GivesNumber (rules.gaussians u v))
    (inexacts : ∀ x y, GivesNumber (rules.inexacts x y))
    (formals : ∀ d e, GivesNumber (rules.formals d e)) (a b : Value) :
    GivesNumber (rules.combine a b) :=
  yields_combine integers rationals gaussians inexacts (fun _ _ _ => givesNumber_ofDecimal _)
    fun _ => formals

theorem givesNumber_add (number : a.isNumber = true) : GivesNumber (a.add b) := by
  rw [add_eq_combine number]
  apply givesNumber_combine <;> simp [addRules, Value.ok, okFormal]

theorem givesNumber_mul (left : a.isNumber = true) (right : b.isNumber = true) :
    GivesNumber (a.mul b) := by
  rw [mul_eq_combine left right]
  apply givesNumber_combine <;> simp [mulRules, Value.ok, okFormal]

theorem givesNumber_div (a b : Value) : GivesNumber (a.div b) := by
  apply givesNumber_combine <;> intros <;>
    simp only [divRules, integerQuotient, inexactQuotient] <;> repeat' split
  all_goals simp [Value.ok, okFormal]

theorem givesNumber_quo (a b : Value) : GivesNumber (a.quo b) := by
  refine yields_bind_iff.mpr fun zero _ => yields_ite_iff.mpr ⟨fun _ => by simp, fun _ => ?_⟩
  split
  next => exact yields_ok.mpr (plainNumber_ofRat _).number
  next =>
    exact yields_bind_iff.mpr fun v divided =>
      yields_ok.mpr (isNumber_simplify (givesNumber_div a b v divided))

end Arithmetic

/-! ## Complex numbers and rounding -/

theorem givesNumber_makeComplex {re : Value} (number : re.isNumber = true) (im : Value) :
    GivesNumber (makeComplex re im) := by
  refine yields_bind_iff.mpr fun zero _ => yields_ite_iff.mpr ⟨fun _ => ?_, fun _ => ?_⟩
  · exact yields_ok.mpr (isNumber_simplify number)
  · split
    next => exact yields_ok.mpr (isNumber_ofGaussian _)
    next => exact yields_bind_iff.mpr fun x _ => yields_bind_iff.mpr fun y _ => yields_ok.mpr rfl

theorem givesNumber_roundReal (places : Int) (v : Value) : GivesNumber (roundReal places v) := by
  cases v with
  | inexact x => cases x <;> simp [roundReal]
  | _ => simp [roundReal]

/-- Rounding the parts of a complex number, or the number itself if it is real. -/
theorem givesNumber_byParts {f : Value → Except Fault Value} (each : ∀ v, GivesNumber (f v))
    (v : Value) : GivesNumber (if v.isComplex then do
      makeComplex (← f v.realPart) (← f v.imagPart) else f v.tidy) := by
  refine yields_ite_iff.mpr ⟨fun _ => yields_bind_iff.mpr fun re found => ?_, fun _ => each _⟩
  exact yields_bind_iff.mpr fun im _ => givesNumber_makeComplex (each _ re found) im

theorem givesNumber_round (places : Int) (v : Value) : GivesNumber (round places v) :=
  givesNumber_byParts (givesNumber_roundReal places) v

theorem givesNumber_figuresReal (figures : Int) (v : Value) :
    GivesNumber (figuresReal figures v) := by
  simp only [figuresReal, yields_bind_iff, yields_ite_iff, throw_eq_error, pure_eq_ok, yields_ok,
    yields_error, givesNumber_roundReal, isNumber_inexact, implies_true, and_self]

theorem givesNumber_significant (figures : Int) (v : Value) :
    GivesNumber (significant figures v) := by
  rw [significant]
  split
  next => simp
  next => exact givesNumber_byParts (givesNumber_figuresReal figures) v

/-- A list of numbers is coerced to numbers. -/
theorem isNumber_coerceDecimals {vs : List Value} (numbers : ∀ v ∈ vs, v.isNumber = true) :
    Yields (fun coerced => ∀ v ∈ coerced, v.isNumber = true) (coerceDecimals vs) := by
  by_cases mixes : ∀ v ∈ vs, v.Mixes
  · rw [coerceDecimals_of_mixes mixes]
    exact yields_ok.mpr numbers
  · exact fun coerced found v member =>
      ((coerceDecimals_of_not_mixes numbers mixes).2 coerced found v member).number

end ExactRoots.Value
