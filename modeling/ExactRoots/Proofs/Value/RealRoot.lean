import ExactRoots.Proofs.Binary64.RoundedSquare
import ExactRoots.Proofs.Decimal.Range
import ExactRoots.Proofs.Value.Normal
import ExactRoots.Proofs.Value.Range
import ExactRoots.Proofs.Value.RootAccuracy
import ExactRoots.Proofs.Value.Underflow

/-!
# Roots of real values

The root of a real value that is not below zero is real, and that of one below zero lies on
the imaginary axis, unless it is too small for a double.  A complex value is made of any
two real parts that have doubles, and of no other parts that are not zero.
-/

namespace ExactRoots.Value

open Binary64 Outcome

/-- Whether a real value is zero, above zero or positive infinity. -/
def IsNonneg : Value → Prop
  | .int n => 0 ≤ n
  | .frac q => 0 ≤ q
  | .inexact (.real x) => Binary64.Nonneg x
  | _ => False

/-- Whether a real value is below zero. -/
def IsNegative : Value → Prop
  | .int n => n < 0
  | .frac q => q < 0
  | .inexact (.real x) => Binary64.Below x
  | _ => False

/-- Whether a rational value is too large for a double and longer than decimal roots are sure to be
computed. -/
def TooLong (v : Value) : Prop :=
  ∃ q, v.rational? = some q ∧ overflowThreshold ≤ |q| ∧ 1999990 < decimalLength q.num.natAbs

variable {q : Rat} {x : Float}

theorem isNonneg_ofRat : (ofRat q).IsNonneg ↔ 0 ≤ q := by
  unfold ofRat
  split
  · exact Rat.num_nonneg
  · exact Iff.rfl

theorem isNegative_ofRat : (ofRat q).IsNegative ↔ q < 0 := by
  unfold ofRat
  split
  · exact Rat.num_neg
  · exact Iff.rfl

theorem tooLong_ofRat : (ofRat q).TooLong ↔
    overflowThreshold ≤ |q| ∧ 1999990 < decimalLength q.num.natAbs := by
  simp [TooLong, rational?_ofRat]

theorem tooSmall_ofRat : (ofRat q).TooSmall ↔ q ≠ 0 ∧ |q| ≤ 2 ^ (-1075 : Int) := by
  unfold ofRat
  split
  next whole =>
    refine iff_of_false id ?_
    rintro ⟨nonzero, small⟩
    rw [← Rat.coe_int_num_of_den_eq_one whole] at nonzero small
    have one : (1 : Rat) ≤ |(q.num : Rat)| := by
      exact_mod_cast Int.one_le_abs (Int.cast_ne_zero.mp nonzero)
    have tiny : (2 : Rat) ^ (-1075 : Int) < 1 := zpow_lt_one_of_neg₀ (by norm_num) (by norm_num)
    exact absurd (one.trans small) (not_le.mpr tiny)
  next => exact Iff.rfl

/-! ## Doubles -/

theorem isNonneg_ofFloat : (ofFloat true x).IsNonneg ↔ Binary64.Nonneg x := by
  rw [ofFloat, if_pos rfl]
  split
  next n whole =>
    rw [toInt?_eq_some_iff] at whole
    constructor
    · intro nonneg
      exact .inl ⟨n, Int.cast_nonneg nonneg, whole⟩
    · rintro (⟨p, nonneg, value⟩ | unbounded)
      · rw [whole, Option.some.injEq] at value
        exact Int.cast_nonneg_iff.mp (value ▸ nonneg)
      · rw [unbounded.toRat?_eq_none] at whole
        contradiction
  next => exact Iff.rfl

theorem isNegative_ofFloat : (ofFloat true x).IsNegative ↔ Binary64.Below x := by
  rw [ofFloat, if_pos rfl]
  split
  next n whole =>
    rw [toInt?_eq_some_iff] at whole
    constructor
    · intro negative
      exact ⟨n, Int.cast_lt_zero.mpr negative, whole⟩
    · rintro ⟨p, negative, value⟩
      rw [whole, Option.some.injEq] at value
      exact Int.cast_lt_zero.mp (value ▸ negative)
  next => exact Iff.rfl

/-- Whether a value can be converted to a double. -/
def Convertible (v : Value) : Prop := ∃ x, v.toFloat = .ok x

theorem convertible_ofRat : (ofRat q).Convertible ↔ |q| < overflowThreshold := by
  rw [Convertible, toFloat_ofRat]
  split
  next small => exact iff_of_true ⟨_, rfl⟩ small
  next large => exact iff_of_false (by simp) large

theorem convertible_ofFloat (x : Float) : (ofFloat true x).Convertible := by
  rw [ofFloat, if_pos rfl]
  split
  next n whole =>
    rcases exists_ofRat?_of_toInt? whole with ⟨y, nearest, -⟩
    exact ⟨y, by simp [toFloat, nearest]⟩
  next => exact ⟨x, rfl⟩

/-! ## Simplest forms -/

/-- Real values in simplest form. -/
inductive RealForm : Value → Prop
  | rational (q : Rat) : RealForm (ofRat q)
  | double {x : Float} (rough : toInt? x = none) : RealForm (float x)

theorem realForm_ofFloat (x : Float) : (ofFloat true x).RealForm := by
  rw [ofFloat, if_pos rfl]
  split
  next n _ =>
    rw [← ofRat_intCast]
    exact .rational n
  next rough => exact .double rough

namespace RealForm

variable {v : Value}

theorem normal (form : v.RealForm) : v.Normal := by
  cases form with
  | rational q => exact normal_ofRat q
  | double rough => exact ofFloat_of_rough rough

theorem realPart_eq (form : v.RealForm) : v.realPart = v := by
  cases form with
  | rational q => exact realPart_of_gaussian? (gaussian?_ofRat q)
  | double => rfl

theorem eq_ofRat (form : v.RealForm) (rational : v.rational? = some q) : v = ofRat q := by
  cases form with
  | rational p =>
    rw [rational?_ofRat, Option.some.injEq] at rational
    rw [rational]
  | double => contradiction

theorem exists_isZero (form : v.RealForm) : ∃ zero, v.isZero = .ok zero := by
  cases form with
  | rational q => exact ⟨_, isZero_ofRat q⟩
  | double => exact ⟨_, isZero_float _⟩

/-- The double of a value that is not below zero is not below zero. -/
theorem nonneg_of_toFloat (form : v.RealForm) (nonneg : v.IsNonneg) (converted : v.toFloat = .ok x) :
    Binary64.Nonneg x := by
  cases form with
  | rational q =>
    rw [toFloat_ofRat] at converted
    split at converted
    · obtain rfl := Except.ok.inj converted
      exact nonneg_of_position (place?_ofRat q) (isNonneg_ofRat.mp nonneg)
    · contradiction
  | double =>
    obtain rfl := Except.ok.inj converted
    exact nonneg

end RealForm

/-- A value or its negative. -/
def signed (negative : Bool) (v : Value) : Except Fault Value := if negative then v.neg else .ok v

/-- Whether a real value is one like another, as its negative is. -/
structure Mirrors (w v : Value) : Prop where
  form : w.RealForm
  zero : w.isZero = v.isZero
  convertible : v.Convertible → w.Convertible
  rational : v.IsRational → w.IsRational

namespace RealForm

variable {v : Value}

theorem neg (form : v.RealForm) : ∃ w, v.neg = .ok w ∧ w.Mirrors v := by
  cases form with
  | rational q =>
    refine ⟨_, neg_ofRat q, .rational _, ?_, ?_, fun _ => isRational_ofRat _⟩
    · simp [isZero_ofRat]
    · rw [convertible_ofRat, convertible_ofRat, abs_neg]
      exact id
  | @double x rough =>
    have rough' : toInt? (-x) = none := by rw [toInt?_neg, rough, Option.map_none]
    refine ⟨_, rfl, .double rough', ?_, fun _ => ⟨-x, rfl⟩, fun ⟨_, denoted⟩ => nomatch denoted⟩
    rw [Inexact.neg, isZero_float, isZero_float, beq_zero_of_rough rough, beq_zero_of_rough rough']

theorem exists_signed (form : v.RealForm) (negative : Bool) :
    ∃ w, v.signed negative = .ok w ∧ w.Mirrors v := by
  cases negative with
  | true => exact form.neg
  | false => exact ⟨v, rfl, form, rfl, id, id⟩

end RealForm

theorem realPart_complex (x y : Float) : (complex x y).realPart = float x := by
  by_cases zero : (y == 0.0) = true <;> simp [realPart, tidy, simplify, zero, ofFloat]

/-! ## Complex values from real parts -/

/-- The imaginary part of a complex value is not zero, and both parts are rationals or doubles. -/
theorem makeComplex_of_normal {x z : Value} (left : x.Normal) (right : z.Normal)
    (nonzero : z.isZero = .ok false) : makeComplex x z =
      match x.rational?, z.rational? with
      | some p, some q => .ok (ofGaussian ⟨p, q⟩)
      | _, _ => do
        let a ← x.toFloat
        let b ← z.toFloat
        return .complex a b := by
  rw [Normal] at left right
  simp only [makeComplex, left, right, nonzero, ok_bind, if_neg Bool.false_ne_true]
  rfl

/-- Complex values in simplest form. -/
inductive Nonreal : Value → Prop
  | exact (re im : Rat) (nonzero : im ≠ 0) : Nonreal (exact re im nonzero)
  | complex (x : Float) {y : Float} (nonzero : (y == 0.0) = false) : Nonreal (complex x y)

namespace Nonreal

variable {v w : Value}

theorem normal (nonreal : v.Nonreal) : v.Normal := by
  cases nonreal with
  | exact => rfl
  | complex x nonzero => exact normal_complex (by simp [nonzero])

theorem isZero_eq (nonreal : v.Nonreal) : v.isZero = .ok false := by
  cases nonreal with
  | exact => rfl
  | complex x nonzero => exact (rough_complex nonzero).isZero_eq

theorem rational?_eq (nonreal : v.Nonreal) : v.rational? = none := by
  cases nonreal <;> rfl

theorem toFloat_eq (nonreal : v.Nonreal) : v.toFloat = .error .unsupported := by
  cases nonreal <;> rfl

theorem neg (nonreal : v.Nonreal) : ∃ w, v.neg = .ok w ∧ w.Nonreal := by
  cases nonreal with
  | exact re im nonzero =>
    refine ⟨_, rfl, ?_⟩
    rw [ofGaussian, dif_neg (neg_ne_zero.mpr nonzero)]
    exact .exact _ _ _
  | @complex x y nonzero =>
    refine ⟨_, rfl, .complex _ ?_⟩
    by_contra zero
    rw [beq_zero_of_neg (Bool.not_eq_false _ ▸ zero)] at nonzero
    contradiction

theorem exists_signed (nonreal : v.Nonreal) (negative : Bool) :
    ∃ w, v.signed negative = .ok w ∧ w.Nonreal := by
  cases negative with
  | true => exact nonreal.neg
  | false => exact ⟨v, rfl, nonreal⟩

/-- A complex value makes no part of another one. -/
theorem makeComplex_left (nonreal : v.Nonreal) (normal : w.Normal) (nonzero : w.isZero = .ok false) :
    makeComplex v w = .error .unsupported := by
  rw [makeComplex_of_normal nonreal.normal normal nonzero, nonreal.rational?_eq, nonreal.toFloat_eq]
  rfl

theorem makeComplex_right (nonreal : v.Nonreal) (normal : w.Normal) :
    ∃ fault, makeComplex w v = .error fault := by
  rw [makeComplex_of_normal normal nonreal.normal nonreal.isZero_eq, nonreal.rational?_eq,
    nonreal.toFloat_eq]
  split
  next => contradiction
  next =>
    rcases w.toFloat with fault | x
    · exact ⟨fault, rfl⟩
    · exact ⟨.unsupported, rfl⟩

end Nonreal

/-- A real value that is not zero makes a value on the imaginary axis. -/
theorem makeComplex_axis {y : Value} (form : y.RealForm) (nonzero : y.isZero = .ok false) :
    ∃ r, makeComplex (.int 0) y = .ok r ∧ r.Nonreal := by
  cases form with
  | rational q =>
    have nonzero' : q ≠ 0 := by simpa [isZero_ofRat] using nonzero
    refine ⟨_, makeComplex_of_gaussian? (p := 0) rfl (gaussian?_ofRat q), ?_⟩
    rw [ofGaussian, dif_neg nonzero']
    exact .exact _ _ _
  | @double x rough =>
    refine ⟨.complex (Binary64.ofRat 0) x, ?_, .complex _ (beq_zero_of_rough rough)⟩
    rw [makeComplex_of_normal (x := .int 0) rfl (RealForm.double rough).normal nonzero, toFloat_zero]
    rfl

/-- Two real values that have doubles, or two rationals, make a value with the first one as its
real part. -/
theorem makeComplex_nonneg {x z : Value} (left : x.RealForm) (right : z.RealForm)
    (nonneg : x.IsNonneg)
    (joint : x.Convertible ∧ z.Convertible ∨ x.IsRational ∧ z.IsRational) :
    ∃ r, makeComplex x z = .ok r ∧ r.realPart.IsNonneg := by
  rcases joint with ⟨⟨a, converted⟩, ⟨b, converted'⟩⟩ | ⟨⟨p, rational⟩, ⟨q, rational'⟩⟩
  · rcases right.exists_isZero with ⟨zero, checked⟩
    cases zero with
    | true =>
      refine ⟨x, ?_, left.realPart_eq.symm ▸ nonneg⟩
      rw [makeComplex, left.normal, right.normal, checked]
      rfl
    | false =>
      rw [makeComplex_of_normal left.normal right.normal checked, converted, converted']
      split
      next p q rational _ => 
        refine ⟨_, rfl, ?_⟩
        rw [realPart_of_gaussian? (gaussian?_ofGaussian _), ← left.eq_ofRat rational]
        exact nonneg
      next =>
        refine ⟨_, rfl, ?_⟩
        rw [realPart_complex]
        exact left.nonneg_of_toFloat nonneg converted
  · obtain rfl := left.eq_ofRat rational
    obtain rfl := right.eq_ofRat rational'
    refine ⟨_, makeComplex_of_gaussian? (gaussian?_ofRat p) (gaussian?_ofRat q), ?_⟩
    rw [realPart_of_gaussian? (gaussian?_ofGaussian _)]
    exact nonneg

/-! ## Roots above zero -/

/-- The floating root is not below zero. -/
theorem nonneg_of_floatRoot (nonneg : 0 ≤ q) (computed : floatRoot q = .ok x) :
    Binary64.Nonneg x := by
  rw [floatRoot, ofRat?_eq] at computed
  split_ifs at computed
  · obtain rfl := Except.ok.inj computed
    exact (nonneg_of_position (place?_ofRat q) nonneg).sqrt
  · have num : (Decimal.ofInt q.num).Unsigned := by
      rw [Decimal.ofInt, decide_eq_false (Int.not_lt.mpr (Rat.num_nonneg.mpr nonneg))]
      exact ⟨_, _, rfl⟩
    have den : (Decimal.ofInt q.den).Unsigned := ⟨_, _, rfl⟩
    dsimp only at computed
    split at computed
    next => contradiction
    next d quotient =>
      obtain ⟨m, e, rfl⟩ := Decimal.givesUnsigned_bind (Decimal.givesUnsigned_sqrtTo num)
        (fun a left => Decimal.givesUnsigned_bind (Decimal.givesUnsigned_sqrtTo den)
          fun b right => Decimal.givesUnsigned_divTo left right) d quotient
      obtain rfl := Except.ok.inj computed
      exact nonneg_ofScientific m e

/-- The floating root is zero only for a number that is too small for a double. -/
theorem floatRoot_of_short (positive : 0 < q)
    (short : overflowThreshold ≤ q → decimalLength q.num.natAbs ≤ 1999990) :
    ∃ x, floatRoot q = .ok x ∧ ((x == 0.0) = true → q ≤ 2 ^ (-1075 : Int)) := by
  rcases lt_or_ge q overflowThreshold with inside | outside
  · refine ⟨_, floatRoot_of_lt positive inside, fun zero => ?_⟩
    by_contra! large
    have above : 0 < position q := by
      refine (position_nonneg positive.le).lt_of_ne' ?_
      rwa [Ne, position_eq_zero_iff, abs_of_pos positive, not_le]
    rw [(above_of_position (place?_ofRat q) above).sqrt.beq_zero_eq_false] at zero
    contradiction
  · rcases floatRoot_outside outside (short outside) with ⟨d, g, root, -, few, near⟩
    have moderate : d.log2 ≤ mostLength := Decimal.log2_le_of_le few.le (by decide)
    refine ⟨_, root, fun zero => ?_⟩
    rw [ofScientific_beq_zero_iff false moderate] at zero
    have one : (1 : Rat) ≤ q := one_lt_overflowThreshold.le.trans outside
    have half := (between_of_near_square (by positivity) (near.mono (by norm_num) positive.le) one
      positive.le (le_mul_of_one_le_right positive.le one)).1
    have tiny : (2 : Rat) ^ (-1075 : Int) < 1 / 2 := by
      rw [one_div, ← zpow_neg_one]
      exact zpow_lt_zpow_right₀ one_lt_two (by decide)
    exact absurd (half.trans zero) (not_le.mpr tiny)

/-- What the root of a real value that is not below zero is like. -/
structure Root (v y : Value) : Prop where
  form : y.RealForm
  nonneg : y.IsNonneg
  convertible : v.Convertible → y.Convertible
  zero : y.isZero = .ok true → v.isZero = .ok true ∨ v.TooSmall

/-- The root of a rational that is not below zero is such a value again. -/
theorem rationalRoot_of_short (nonneg : 0 ≤ q)
    (short : overflowThreshold ≤ q → decimalLength q.num.natAbs ≤ 1999990) :
    ∃ y, rationalRoot q = .ok y ∧ (ofRat q).Root y := by
  by_cases square : IsSquare q
  · rcases square with ⟨s, rfl⟩
    rw [← abs_mul_abs_self s, rationalRoot_mul_self (abs_nonneg s)]
    refine ⟨_, rfl, .rational _, isNonneg_ofRat.mpr (abs_nonneg s), ?_, ?_⟩
    · rw [convertible_ofRat, convertible_ofRat, abs_mul, abs_abs]
      intro small
      by_contra! large
      have one := one_lt_overflowThreshold.le.trans large
      exact absurd (large.trans (le_mul_of_one_le_right (abs_nonneg s) one)) (not_le.mpr small)
    · intro zero
      left
      simpa [isZero_ofRat] using zero
  · have positive : 0 < q := by
      refine nonneg.lt_of_ne' ?_
      rintro rfl
      exact square ⟨0, by simp⟩
    rcases floatRoot_of_short positive short with ⟨x, computed, tiny⟩
    rw [rationalRoot_of_not_isSquare nonneg square, computed]
    refine ⟨_, rfl, realForm_ofFloat x,
      isNonneg_ofFloat.mpr (nonneg_of_floatRoot nonneg computed),
      fun _ => convertible_ofFloat x, fun zero => .inr ?_⟩
    rw [isZero_ofFloat, Except.ok.injEq] at zero
    rw [tooSmall_ofRat, abs_of_pos positive]
    exact ⟨positive.ne', tiny zero⟩

/-! ## Roots of real values -/

namespace RealForm

variable {v : Value}

theorem realRoot_of_nonneg (form : v.RealForm) (nonneg : v.IsNonneg) (short : ¬ v.TooLong) :
    ∃ y, realRoot v = .ok y ∧ v.Root y := by
  cases form with
  | rational q =>
    rw [isNonneg_ofRat] at nonneg
    rw [tooLong_ofRat, abs_of_nonneg nonneg, not_and, Nat.not_lt] at short
    rw [Value.realRoot_of_nonneg nonneg (gaussian?_ofRat q)]
    exact rationalRoot_of_short nonneg short
  | @double h rough =>
    have above : Binary64.Nonneg h := nonneg
    rw [realRoot_float, if_neg above.not_lt_zero]
    refine ⟨_, rfl, realForm_ofFloat _, isNonneg_ofFloat.mpr above.sqrt,
      fun _ => convertible_ofFloat _, fun zero => ?_⟩
    rw [isZero_ofFloat, (above.above (beq_zero_of_rough rough)).sqrt.beq_zero_eq_false] at zero
    contradiction

theorem realRoot_of_negative (form : v.RealForm) (negative : v.IsNegative) (short : ¬ v.TooLong)
    (large : ¬ v.TooSmall) : ∃ x, realRoot v = .ok x ∧ x.Nonreal := by
  cases form with
  | rational q =>
    rw [isNegative_ofRat] at negative
    rw [tooLong_ofRat, abs_of_neg negative, not_and, Nat.not_lt] at short
    have positive := neg_pos.mpr negative
    rcases rationalRoot_of_short positive.le (by rwa [Rat.neg_num, Int.natAbs_neg]) with
      ⟨y, rooted, root⟩
    rw [realRoot_of_gaussian? (gaussian?_ofRat q), if_pos negative, rooted, ok_bind]
    rcases root.form.exists_isZero with ⟨zero, checked⟩
    refine makeComplex_axis root.form ?_
    cases zero with
    | false => exact checked
    | true =>
      rcases root.zero checked with zero | small
      · rw [isZero_ofRat] at zero
        simp [negative.ne] at zero
      · rw [tooSmall_ofRat, abs_neg, neg_ne_zero] at small
        exact absurd (tooSmall_ofRat.mpr small) large
  | @double h rough =>
    have below : Binary64.Below h := negative
    rw [realRoot_float, if_pos below.lt_zero]
    refine makeComplex_axis (realForm_ofFloat _) ?_
    rw [isZero_ofFloat, below.neg.sqrt.beq_zero_eq_false]

end RealForm

end ExactRoots.Value
