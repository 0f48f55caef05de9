import ExactRoots.Proofs.Value.Convergents
import ExactRoots.Proofs.Value.Exact
import ExactRoots.Proofs.Value.Inexact
import ExactRoots.Value.SquareRoot

/-!
# Values in normal form

Bringing a value to its simplest form leaves nothing to simplify, with one exception: an
imaginary part that is not zero, but too small for a double, becomes zero in a floating
complex number.  Quotients, complex values from their parts and square roots are in normal
form or such a flat number, and fractions recovered from doubles are in normal form.
-/

namespace ExactRoots.Value

open Outcome

/-- Whether simplifying leaves a value as it is. -/
def Normal (v : Value) : Prop := v.simplest = v

/-- Whether a value is a floating complex number with an imaginary part of zero. -/
def Flat (v : Value) : Prop := ∃ x y, v = complex x y ∧ (y == 0.0) = true

/-- Whether a value is in normal form, or flat. -/
def NormalOrFlat (v : Value) : Prop := v.Normal ∨ v.Flat

/-! ## Simplest forms -/

theorem normal_ofGaussian (u : Gaussian) : (ofGaussian u).Normal := simplest_ofGaussian u

theorem normal_ofRat (q : Rat) : (ofRat q).Normal := by
  rw [← ofGaussian_ofRat]
  exact normal_ofGaussian _

theorem normal_decimal (d : Decimal) : (decimal d).Normal := rfl

theorem normal_ofFloat (x : Float) : (ofFloat true x).Normal := by
  rw [ofFloat, if_pos rfl]
  split
  next n _ => rfl
  next fractional =>
    rw [Normal, simplest, simplify, ofFloat, if_pos rfl, fractional]

/-- A floating complex number is in normal form unless it is flat. -/
theorem normal_complex {x y : Float} (nonzero : ¬ (y == 0.0) = true) : (complex x y).Normal := by
  rw [Normal, simplest, simplify, if_neg nonzero]

theorem not_normal_of_flat {v : Value} : v.Flat → ¬ v.Normal := by
  rintro ⟨x, y, rfl, zero⟩ normal
  rw [Normal, simplest, simplify, if_pos zero, ofFloat, if_pos rfl] at normal
  split at normal <;> cases normal

theorem normalOrFlat_complex (x y : Float) : (complex x y).NormalOrFlat := by
  by_cases zero : (y == 0.0) = true
  · exact .inr ⟨x, y, rfl, zero⟩
  · exact .inl (normal_complex zero)

/-- The simplest form of a value that is worked out is in normal form. -/
theorem normal_simplest {v : Value} (settled : v.Settled) : v.simplest.Normal := by
  cases v with
  | frac q => exact normal_ofRat q
  | inexact x =>
    obtain x | ⟨re, im⟩ := x
    · exact normal_ofFloat x
    · rw [simplest, simplify]
      split
      next => exact normal_ofFloat re
      next nonzero => exact normal_complex nonzero
  | formal e => exact absurd rfl (settled e)
  | int | exact | decimal | text | absent => rfl

/-- In normal form no complex number has an imaginary part of zero, no fraction is an integer, no
double is an integer, and every expression is worked out. -/
theorem normal_iff {v : Value} : v.Normal ↔ (∀ x y, v = complex x y → ¬ (y == 0.0) = true) ∧
    (∀ q, v = frac q → q.den ≠ 1) ∧ (∀ x, v = .float x → Binary64.toInt? x = none) ∧
    v.Settled := by
  cases v with
  | frac q => simp [Normal, simplest, simplify, ofRat, Settled]
  | inexact x =>
    obtain x | ⟨re, im⟩ := x
    · cases whole : Binary64.toInt? x <;>
        simp [Normal, simplest, simplify, ofFloat, whole, Settled]
    · by_cases zero : (im == 0.0) = true
      · simp [not_normal_of_flat ⟨re, im, rfl, zero⟩, zero]
      · simp [normal_complex zero, zero, Settled]
  | formal e =>
    have settled := settled_simplify true (formal e)
    constructor
    · intro normal
      rw [← simplest, normal] at settled
      exact absurd rfl (settled e)
    · rintro ⟨-, -, -, settled⟩
      exact absurd rfl (settled e)
  | int | exact | decimal | text | absent => simp [Normal, simplest, simplify, Settled]

/-- The number of an expression may have an imaginary part that is too small for a double. -/
theorem normalOrFlat_simplest (v : Value) : v.simplest.NormalOrFlat := by
  cases v with
  | formal e =>
    have number : (formal e).simplest = ofNumber true e.number := rfl
    rw [number]
    unfold ofNumber
    split
    next u _ => exact .inl (normal_ofGaussian u)
    next x _ => exact .inl (normal_ofFloat x)
    next x notReal _ =>
      obtain x | ⟨re, im⟩ := x
      · exact absurd rfl (notReal x)
      · exact normalOrFlat_complex re im
  | frac | inexact | int | exact | decimal | text | absent =>
    exact .inl (normal_simplest (by simp [Settled]))

/-! ## Quotients and complex values -/

/-- A quotient is rational, or the simplest form of what division gives. -/
theorem yields_quo {P : Value → Prop} {a b : Value} (rational : ∀ q, P (ofRat q))
    (divided : Yields (fun quotient => P quotient.simplest) (a.div b)) : Yields P (a.quo b) := by
  unfold quo
  rw [yields_bind_iff]
  intro zero _
  split
  next => simp
  next =>
    split
    next => exact yields_ok.mpr (rational _)
    next =>
      rw [yields_bind_iff]
      exact fun quotient same => yields_ok.mpr (divided quotient same)

theorem normalOrFlat_quo (a b : Value) : Yields NormalOrFlat (a.quo b) :=
  yields_quo (fun q => .inl (normal_ofRat q)) fun quotient _ => normalOrFlat_simplest quotient

theorem settled_ofDecimal (result : Except DecimalSignal Decimal) :
    Yields Settled (ofDecimal result) := by
  unfold ofDecimal
  split
  · exact yields_ok.mpr (by simp [Settled])
  · exact yields_error _

/-- A quotient is an expression only beside exact complex numbers and expressions. -/
theorem settled_div {a b : Value} (left : a.isFormal = false) (right : b.isFormal = false) :
    Yields Settled (a.div b) := by
  apply yields_combine
  case integers =>
    intro m n
    simp only [divRules, integerQuotient]
    split
    · exact yields_error _
    · split <;> simp [Settled]
  case rationals => simp [divRules, Settled]
  case gaussians =>
    intro u v
    refine yields_ite_iff.mpr ⟨fun _ => ?_, fun _ => yields_ok.mpr (ofGaussian_plain _).2⟩
    exact yields_ok.mpr (by simp [Settled])
  case inexacts =>
    intro x y
    simp only [divRules, inexactQuotient]
    split <;> simp [Value.ok, Settled]
  case decimals => exact fun _ d e => settled_ofDecimal _
  case formals => simp [left, right]

theorem normal_quo {a b : Value} (left : a.isFormal = false) (right : b.isFormal = false) :
    Yields Normal (a.quo b) :=
  yields_quo normal_ofRat fun quotient divided =>
    normal_simplest (settled_div left right quotient divided)

/-- Whether an imaginary part is not zero, but its double is. -/
def Vanishes (im : Value) : Prop :=
  im.simplest.isZero = .ok false ∧ ∃ y, im.simplest.toFloat = .ok y ∧ (y == 0.0) = true

/-- A complex value from its parts is the real one if the imaginary one is zero, and otherwise it is
flat only if the imaginary one vanishes and not both are rational. -/
theorem makeComplex_normal_or_flat {re im v : Value} (made : makeComplex re im = .ok v) :
    v = re.simplest ∧ im.simplest.isZero = .ok true ∨ v.Normal ∨
      v.Flat ∧ im.Vanishes ∧ ¬ (re.simplest.IsRational ∧ im.simplest.IsRational) := by
  rcases bind_eq_ok_iff.mp made with ⟨zero, checked, made⟩
  cases zero with
  | true =>
    cases made
    exact .inl ⟨rfl, checked⟩
  | false =>
    right
    rw [if_neg Bool.false_ne_true] at made
    split at made
    next =>
      cases made
      exact .inl (normal_ofGaussian _)
    next notRational =>
      simp only [bind_eq_ok_iff] at made
      rcases made with ⟨x, -, y, converted, same⟩
      cases same
      by_cases vanishes : (y == 0.0) = true
      · refine .inr ⟨⟨x, y, rfl, vanishes⟩, ⟨checked, y, converted, vanishes⟩, ?_⟩
        rintro ⟨⟨p, left⟩, q, right⟩
        exact notRational p q left right
      · exact .inl (normal_complex vanishes)

theorem normalOrFlat_makeComplex (re im : Value) : Yields NormalOrFlat (makeComplex re im) := by
  intro v made
  rcases makeComplex_normal_or_flat made with ⟨rfl, -⟩ | normal | ⟨flat, -⟩
  · exact normalOrFlat_simplest re
  · exact .inl normal
  · exact .inr flat

/-! ## Square roots -/

theorem normal_rationalRoot (q : Rat) : Yields Normal (rationalRoot q) := by
  intro root rooted
  unfold rationalRoot at rooted
  split at rooted
  next =>
    cases rooted
    exact normal_ofRat _
  next =>
    rcases map_eq_ok_iff.mp rooted with ⟨x, -, rfl⟩
    exact normal_ofFloat x

theorem normal_ofDecimal (result : Except DecimalSignal Decimal) :
    Yields Normal (ofDecimal result) := by
  unfold ofDecimal
  split
  · exact yields_ok.mpr (normal_decimal _)
  · exact yields_error _

theorem normal_nonnegRoot (v : Value) : Yields Normal (nonnegRoot v) := by
  cases v with
  | int n => exact normal_rationalRoot n
  | frac q => exact normal_rationalRoot q
  | decimal d => exact normal_ofDecimal _
  | inexact x =>
    cases x with
    | real x => exact yields_ok.mpr (normal_ofFloat _)
    | complex re im => exact yields_error _
  | exact | formal | text | absent => exact yields_error _

theorem normalOrFlat_realRoot (v : Value) : Yields NormalOrFlat (realRoot v) := by
  unfold realRoot
  split
  next => exact yields_error _
  next => exact yields_error _
  next =>
    rw [yields_bind_iff]
    intro below _
    split
    · simp only [yields_bind_iff]
      exact fun negated _ root _ => normalOrFlat_makeComplex _ root
    · exact fun root rooted => .inl (normal_nonnegRoot _ root rooted)

/-- Whether a value is an integer, a fraction or a double. -/
def RationalOrFloat (v : Value) : Prop := v.IsRational ∨ ∃ x, v = .float x

theorem rationalOrFloat_ofFloat (x : Float) : (ofFloat true x).RationalOrFloat := by
  rw [ofFloat, if_pos rfl]
  split
  · exact .inl (isRational_int _)
  · exact .inr ⟨x, rfl⟩

theorem rationalOrFloat_nonnegRoot {v : Value} (real : v.RationalOrFloat) :
    Yields RationalOrFloat (nonnegRoot v) := by
  have rational (q : Rat) : Yields RationalOrFloat (rationalRoot q) := by
    intro root rooted
    unfold rationalRoot at rooted
    split at rooted
    next =>
      cases rooted
      exact .inl (isRational_ofRat _)
    next =>
      rcases map_eq_ok_iff.mp rooted with ⟨x, -, rfl⟩
      exact rationalOrFloat_ofFloat x
  rcases real with real | ⟨x, rfl⟩
  · rcases real.cases with ⟨n, rfl⟩ | ⟨q, rfl⟩
    · exact rational n
    · exact rational q
  · exact yields_ok.mpr (rationalOrFloat_ofFloat _)

/-- A double only vanishes if it is zero, and a rational does not vanish beside another. -/
theorem normal_imaginary {root : Value} (normal : root.Normal) (real : root.RationalOrFloat) :
    Yields Normal (makeComplex (.int 0) root) := by
  intro v made
  rcases makeComplex_normal_or_flat made with ⟨rfl, -⟩ | same | ⟨-, ⟨checked, y, converted, zero⟩, mixed⟩
  · rfl
  · exact same
  · rw [normal] at checked converted mixed
    rcases real with rational | ⟨x, rfl⟩
    · exact absurd ⟨isRational_int 0, rational⟩ mixed
    · cases converted
      rw [isZero_float, zero] at checked
      contradiction

/-- Roots of integers, fractions and doubles are in normal form. -/
theorem normal_realRoot {v : Value} (real : v.RationalOrFloat) : Yields Normal (realRoot v) := by
  have each {w : Value} (real : w.RationalOrFloat) (negative : Yields RationalOrFloat w.neg) :
      Yields Normal (do
        if ← w.isBelowZero then makeComplex (.int 0) (← nonnegRoot (← w.neg)) else nonnegRoot w) := by
    rw [yields_bind_iff]
    intro below _
    split
    · simp only [yields_bind_iff]
      intro negated negation root rooted
      exact normal_imaginary (normal_nonnegRoot _ root rooted)
        (rationalOrFloat_nonnegRoot (negative negated negation) root rooted)
    · exact normal_nonnegRoot w
  rcases real with real | ⟨x, rfl⟩
  · rcases real.cases with ⟨n, rfl⟩ | ⟨q, rfl⟩
    · exact each (.inl (isRational_int n)) (yields_ok.mpr (.inl (isRational_int _)))
    · have tidied : (frac q).tidy = ofRat q := rfl
      unfold realRoot
      rw [tidied]
      rcases (isRational_ofRat q).cases with ⟨n, same⟩ | ⟨r, same⟩
      · rw [same]
        exact each (.inl (isRational_int n)) (yields_ok.mpr (.inl (isRational_int _)))
      · rw [same]
        exact each (.inl (isRational_frac r)) (yields_ok.mpr (.inl (isRational_frac _)))
  · exact each (.inr ⟨x, rfl⟩) (yields_ok.mpr (.inr ⟨_, rfl⟩))

theorem normalOrFlat_sqrt (v : Value) : Yields NormalOrFlat v.sqrt := by
  unfold sqrt
  split
  · simp [complexRoot, normalOrFlat_makeComplex]
  · exact normalOrFlat_realRoot v

/-- Roots of values without imaginary part are taken as such. -/
theorem normal_sqrt {v : Value} (real : v.RationalOrFloat) : Yields Normal v.sqrt := by
  have plane : v.isComplex = false := by
    rcases real with real | ⟨x, rfl⟩
    · rcases real.cases with ⟨n, rfl⟩ | ⟨q, rfl⟩
      · rfl
      · unfold isComplex
        have tidied : (frac q).tidy = ofRat q := rfl
        rw [tidied]
        rcases (isRational_ofRat q).cases with ⟨n, same⟩ | ⟨r, same⟩ <;> rw [same]
    · rfl
  unfold sqrt
  rw [plane]
  exact normal_realRoot real

/-! ## Fractions from doubles -/

/-- What is rounded to decimals is a whole number of units of the last place. -/
theorem exists_roundRationalTo_eq (q : Rat) (places : Int) :
    ∃ k : Int, roundRationalTo q places = k * 10 ^ (-places) := by
  unfold roundRationalTo
  split
  next positive =>
    lift places to Nat using positive.le
    refine ⟨roundRational (q * (Nat.pow 10 (places : Int).toNat : Nat)), ?_⟩
    rw [Rat.mkRat_eq_div, Int.toNat_natCast, zpow_neg, zpow_natCast, div_eq_mul_inv]
    simp
  next nonpos =>
    obtain ⟨n, rfl⟩ : ∃ n : Nat, places = -n := ⟨places.natAbs, by omega⟩
    refine ⟨roundRational (q / (Nat.pow 10 (- -(n : Int)).toNat : Nat)), ?_⟩
    rw [neg_neg, Int.toNat_natCast, zpow_natCast]
    push_cast
    simp

theorem roundRational_intCast (n : Int) : roundRational n = n := by
  unfold roundRational
  rw [Rat.num_intCast, Rat.den_intCast, roundHalfEven_one]
  dsimp only
  split <;> omega

/-- Integers stay integers when they are rounded to decimals. -/
theorem den_roundRationalTo_intCast (n : Int) (places : Int) :
    (roundRationalTo n places).den = 1 := by
  unfold roundRationalTo
  dsimp only
  split
  next positive =>
    have scale : ((Nat.pow 10 places.toNat : Nat) : Rat) ≠ 0 :=
      Nat.cast_ne_zero.mpr (Nat.pow_pos (by decide)).ne'
    have product : (n * (Nat.pow 10 places.toNat : Nat) : Rat) =
        ((n * (Nat.pow 10 places.toNat : Nat) : Int) : Rat) := by push_cast; rfl
    rw [product, roundRational_intCast, Rat.mkRat_eq_div, ← product, mul_div_cancel_right₀ _ scale,
      Rat.den_intCast]
  next => exact Rat.den_intCast _

/-- A number that is rounded to decimals, but not to zero, is not zero and less than twice the
rounded number. -/
theorem abs_lt_of_roundRationalTo {q : Rat} {places : Int} (nonzero : roundRationalTo q places ≠ 0) :
    q ≠ 0 ∧ |q| < 2 * |roundRationalTo q places| := by
  have unit : (0 : Rat) < 10 ^ (-places) := by positivity
  rcases exists_roundRationalTo_eq q places with ⟨k, form⟩
  have whole : (1 : Rat) ≤ |(k : Rat)| := by
    have : k ≠ 0 := by
      rintro rfl
      simp [form] at nonzero
    exact_mod_cast Int.one_le_abs this
  have least : 10 ^ (-places) ≤ |roundRationalTo q places| := by
    rw [form, abs_mul, abs_of_pos unit]
    exact le_mul_of_one_le_left unit.le whole
  have near := abs_roundRationalTo_sub_le q places
  constructor
  · rintro rfl
    rw [sub_zero] at near
    linarith
  · have apart := abs_sub_abs_le_abs_sub q (roundRationalTo q places)
    rw [abs_sub_comm] at apart
    linarith

/-- A number that is replaced by a nearest fraction other than zero is not zero and less than twice
the fraction. -/
theorem abs_lt_of_limitDenominator {bound : Nat} (positive : 1 ≤ bound) {q : Rat}
    (nonzero : limitDenominator bound q ≠ 0) : q ≠ 0 ∧ |q| < 2 * |limitDenominator bound q| := by
  rcases limitDenominator_nearest positive q with ⟨small, nearest⟩
  generalize limitDenominator bound q = r at *
  have double : (2 * r).den ≤ bound := by
    have divides := Rat.mul_den_dvd 2 r
    rw [Rat.den_ofNat, one_mul] at divides
    exact (Nat.le_of_dvd r.den_pos divides).trans small
  -- neither zero nor twice the fraction is nearer
  have fromZero := sq_le_sq.mpr (nearest 0 (by simpa using positive))
  have fromDouble := sq_le_sq.mpr (nearest (2 * r) double)
  have square : 0 < r * r := mul_self_pos.mpr nonzero
  constructor
  · rintro rfl
    nlinarith
  · by_contra! far
    have product : 2 * (r * r) ≤ |r * q| := by
      rw [abs_mul, ← abs_mul_abs_self r]
      nlinarith [abs_nonneg r]
    have same : 0 ≤ r * q := by nlinarith
    rw [abs_of_nonneg same] at product
    nlinarith

/-- A double other than zero is at least the least double. -/
theorem least_le_abs {x : Float} {q : Rat} (value : Binary64.toRat? x = some q) (nonzero : q ≠ 0) :
    2 ^ (-1074 : Int) ≤ |q| := by
  have least : Binary64.patternValue 1 = 2 ^ (-1074 : Int) := by norm_num [Binary64.patternValue]
  have size (n : Int) : |Binary64.valueAt n| = Binary64.patternValue n.natAbs := by
    have nonneg := Binary64.patternValue_nonneg n.natAbs
    rw [Binary64.valueAt]
    split
    · rw [abs_neg, abs_of_nonneg nonneg]
    · exact abs_of_nonneg nonneg
  have same := Binary64.valueAt_position_of_toRat? value
  have away : 1 ≤ (Binary64.position q).natAbs := by
    rw [Nat.one_le_iff_ne_zero, Int.natAbs_ne_zero]
    intro zero
    rw [zero, Binary64.valueAt_zero] at same
    exact nonzero same.symm
  calc (2 : Rat) ^ (-1074 : Int) = Binary64.patternValue 1 := least.symm
    _ ≤ Binary64.patternValue (Binary64.position q).natAbs :=
      Binary64.patternValue_strictMono.monotone away
    _ = |q| := by rw [← size, same]

/-- A fraction that takes the place of a double does not vanish in a double. -/
theorem not_vanishes_ofRat {x : Float} {q r : Rat} (value : Binary64.toRat? x = some q)
    (near : r ≠ 0 → q ≠ 0 ∧ |q| < 2 * |r|) : ¬ (ofRat r).Vanishes := by
  rintro ⟨checked, y, converted, zero⟩
  rw [normal_ofRat] at checked converted
  have nonzero : r ≠ 0 := by
    rintro rfl
    contradiction
  rcases near nonzero with ⟨nonzero', above⟩
  have least := least_le_abs value nonzero'
  rw [toFloat_ofRat] at converted
  split at converted
  next =>
    cases converted
    rw [Binary64.ofRat_beq_zero_iff] at zero
    have halves : (2 : Rat) ^ (-1074 : Int) = 2 * 2 ^ (-1075 : Int) :=
      zpow_one_add₀ two_ne_zero (-1075)
    linarith
  next => contradiction

section Recover

variable {bound places : Int}

/-- A value stays, unless what it denotes is rounded to an integer, or gives way to a fraction that
is not much smaller. -/
theorem recoverReal_cases {v w : Value} (recovered : recoverReal bound places v = .ok w) :
    ∃ located, approximated? v.tidy = .ok located ∧
      (w = v.tidy ∧ (∀ q, located = some q → 1 < (roundRationalTo q places).den) ∨
        ∃ q r, located = some q ∧ w = ofRat r ∧ (r ≠ 0 → q ≠ 0 ∧ |q| < 2 * |r|)) := by
  rcases bind_eq_ok_iff.mp recovered with ⟨located, found, recovered⟩
  refine ⟨located, found, ?_⟩
  split at recovered
  next =>
    cases recovered
    exact .inl ⟨rfl, by simp⟩
  next q =>
    dsimp only at recovered
    split at recovered
    next =>
      cases recovered
      exact .inr ⟨q, _, rfl, rfl, abs_lt_of_roundRationalTo⟩
    next large =>
      rcases bind_eq_ok_iff.mp recovered with ⟨limit, bounded, recovered⟩
      have positive : 1 ≤ bound ∧ 1 ≤ limit := by
        unfold denominatorBound at bounded
        split at bounded
        · contradiction
        · cases bounded
          omega
      split at recovered
      next =>
        cases recovered
        exact .inr ⟨q, _, rfl, rfl, abs_lt_of_limitDenominator positive.2⟩
      next =>
        cases recovered
        refine .inl ⟨rfl, ?_⟩
        rintro p ⟨⟩
        omega

/-- A double that is no integer is its own simplest form. -/
theorem normal_float {x : Float} (fractional : Binary64.toInt? x = none) :
    (Value.float x).Normal ∧ ¬ (Value.float x).Vanishes := by
  have normal : (Value.float x).Normal := by
    rw [Normal, simplest, simplify, ofFloat, if_pos rfl, fractional]
  refine ⟨normal, ?_⟩
  rintro ⟨checked, y, converted, zero⟩
  rw [normal] at checked converted
  cases converted
  rw [isZero_float, zero] at checked
  contradiction

/-- A double stays, if it is no integer, or gives way to a fraction that does not vanish. -/
theorem recoverReal_float {x : Float} {v : Value}
    (recovered : recoverReal bound places (.float x) = .ok v) : v.Normal ∧ ¬ v.Vanishes := by
  have tidied : (Value.float x).tidy = .float x := rfl
  have denoted : approximated? (.float x) = .ok (Binary64.toRat? x) := rfl
  rcases recoverReal_cases recovered with ⟨located, found, stays | ⟨q, r, value, rfl, near⟩⟩
  · rw [tidied, denoted, Except.ok.injEq] at found
    rcases stays with ⟨rfl, fractional⟩
    apply normal_float
    rw [Option.eq_none_iff_forall_ne_some]
    intro n whole
    rw [Binary64.toInt?_eq_some_iff, found] at whole
    have integral := fractional n whole
    rw [den_roundRationalTo_intCast] at integral
    exact absurd integral (lt_irrefl 1)
  · rw [tidied, denoted, Except.ok.injEq, value] at found
    exact ⟨normal_ofRat r, not_vanishes_ofRat found near⟩

/-- A value in normal form is left as it is, or gives way to a fraction. -/
theorem recoverReal_normal {v w : Value} (normal : v.tidy.Normal)
    (recovered : recoverReal bound places v = .ok w) : w.Normal := by
  rcases recoverReal_cases recovered with ⟨located, -, ⟨rfl, -⟩ | ⟨q, r, -, rfl, -⟩⟩
  · exact normal
  · exact normal_ofRat r

/-- A value that keeps its doubles is a double, a floating complex number, or in normal form. -/
theorem tidy_cases (v : Value) :
    (∃ x, v.tidy = .float x) ∨ (∃ re im, v.tidy = complex re im) ∨ v.tidy.Normal := by
  have ofFloat_eq (x : Float) : ofFloat false x = .float x := by simp [ofFloat]
  cases v with
  | frac q => exact .inr (.inr (normal_ofRat q))
  | inexact x =>
    obtain x | ⟨re, im⟩ := x
    · exact .inl ⟨x, ofFloat_eq x⟩
    · rw [tidy, simplify]
      split
      · exact .inl ⟨re, ofFloat_eq re⟩
      · exact .inr (.inl ⟨re, im, rfl⟩)
  | formal e =>
    have number : (formal e).tidy = ofNumber false e.number := rfl
    rw [number]
    unfold ofNumber
    split
    next u _ => exact .inr (.inr (normal_ofGaussian u))
    next x _ => exact .inl ⟨x, ofFloat_eq x⟩
    next x notReal _ =>
      obtain x | ⟨re, im⟩ := x
      · exact absurd rfl (notReal x)
      · exact .inr (.inl ⟨re, im, rfl⟩)
  | int | exact | decimal | text | absent => exact .inr (.inr rfl)

theorem recoverReal_ofRat (q : Rat) : recoverReal bound places (ofRat q) = .ok (ofRat q) := by
  have tidied : (ofRat q).tidy = ofRat q := by
    rw [← ofGaussian_ofRat]
    exact simplify_ofGaussian false _
  have located : approximated? (ofRat q) = .ok none := by
    unfold ofRat
    split <;> rfl
  rw [recoverReal, tidied, located]
  rfl

/-- An exact value stays as it is. -/
theorem recover_ofGaussian (u : Gaussian) :
    recover bound places (ofGaussian u) = .ok (ofGaussian u) := by
  have denoted := gaussian?_ofGaussian u
  rw [recover, isComplex_of_gaussian? denoted]
  by_cases real : u.im = 0
  · have axis : ofGaussian u = ofRat u.re := by rw [ofGaussian, dif_pos real]
    rw [decide_eq_false (not_not_intro real), if_neg Bool.false_ne_true, axis, recoverReal_ofRat]
  · rw [decide_eq_true real, if_pos rfl, realPart_of_gaussian? denoted,
      imagPart_of_gaussian? denoted, recoverReal_ofRat, recoverReal_ofRat]
    exact makeComplex_of_gaussian? (gaussian?_ofRat u.re) (gaussian?_ofRat u.im)

/-- A value with an imaginary part has two exact parts or two doubles. -/
theorem parts_of_isComplex {v : Value} (nonreal : v.isComplex = true) :
    (∃ re im, v.realPart = .float re ∧ v.imagPart = .float im) ∨
      ∃ re im, v.realPart = ofRat re ∧ v.imagPart = ofRat im := by
  unfold isComplex at nonreal
  split at nonreal
  next re im tidied => exact .inl ⟨re, im, by rw [realPart, tidied], by rw [imagPart, tidied]⟩
  next re im _ tidied => exact .inr ⟨re, im, by rw [realPart, tidied], by rw [imagPart, tidied]⟩
  next => contradiction

/-- Fractions recovered from doubles are in normal form. -/
theorem normal_recover (v : Value) : Yields Normal (recover bound places v) := by
  intro w recovered
  unfold recover at recovered
  split at recovered
  next nonreal =>
    simp only [bind_eq_ok_iff] at recovered
    rcases recovered with ⟨x, left, y, right, made⟩
    rcases parts_of_isComplex nonreal with ⟨re, im, first, second⟩ | ⟨re, im, first, second⟩
    · rw [first] at left
      rw [second] at right
      rcases makeComplex_normal_or_flat made with ⟨rfl, -⟩ | normal | ⟨-, vanishes, -⟩
      · rw [(recoverReal_float left).1]
        exact (recoverReal_float left).1
      · exact normal
      · exact absurd vanishes (recoverReal_float right).2
    · rw [first, recoverReal_ofRat] at left
      rw [second, recoverReal_ofRat] at right
      cases left
      cases right
      rcases makeComplex_normal_or_flat made with ⟨rfl, -⟩ | normal | ⟨-, -, mixed⟩
      · rw [normal_ofRat]
        exact normal_ofRat re
      · exact normal
      · rw [normal_ofRat, normal_ofRat] at mixed
        exact absurd ⟨isRational_ofRat re, isRational_ofRat im⟩ mixed
  next real =>
    rcases tidy_cases v with ⟨x, tidied⟩ | ⟨re, im, tidied⟩ | normal
    · have same : recoverReal bound places v = recoverReal bound places (.float x) := by
        rw [recoverReal, recoverReal, tidied]
        rfl
      rw [same] at recovered
      exact (recoverReal_float recovered).1
    · rw [isComplex, tidied] at real
      exact absurd rfl real
    · exact recoverReal_normal normal recovered

end Recover

end ExactRoots.Value
