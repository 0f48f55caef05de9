import ExactRoots.Proofs.Value.Exact
import ExactRoots.Proofs.Value.Plain
import ExactRoots.Proofs.Value.Text

/-!
# Operands that an operation supports

Numbers that are no decimals can always be computed with, and so can decimals and
integers.  An operation that does not support its operands has a decimal beside a
fraction, a double or a complex number.
-/

namespace ExactRoots.Value

open Outcome

/-- Whether a computation has the operands that its operations support. -/
abbrev Supported {α : Type} (outcome : Except Fault α) : Prop :=
  FaultsIn (· ≠ .unsupported) outcome

@[simp]
theorem supported_ofDecimal (result : Except DecimalSignal Decimal) :
    Supported (ofDecimal result) := by
  rcases result with (_ | _ | _) | _ <;> simp [ofDecimal, DecimalSignal.fault]

@[simp]
theorem supported_ofRat (q : Rat) : Supported (Inexact.ofRat q) := by
  unfold Inexact.ofRat
  split <;> simp

@[simp]
theorem supported_isZero (v : Value) : Supported v.isZero := by
  cases v <;> simp [isZero]

@[simp]
theorem supported_display (v : Value) : Supported v.display := by
  intro fault failed
  rcases (writtenIf_display v).faults fault failed with ⟨rfl, -⟩
  simp

@[simp]
theorem supported_equals (a b : Value) : Supported (a.equals b) := by
  unfold equals
  split <;> simp

/-! ## Numbers without decimals -/

/-- Whether a value is a number that is no decimal. -/
structure PlainNumber (v : Value) : Prop where
  plain : v.Plain
  number : v.isNumber = true

@[simp]
theorem plainNumber_int (n : Int) : (int n).PlainNumber := ⟨rfl, rfl⟩

@[simp]
theorem plainNumber_frac (q : Rat) : (frac q).PlainNumber := ⟨rfl, rfl⟩

@[simp]
theorem plainNumber_inexact (x : Inexact) : (inexact x).PlainNumber := ⟨rfl, rfl⟩

@[simp]
theorem plainNumber_formal (e : Formal) : (formal e).PlainNumber := ⟨rfl, rfl⟩

@[simp]
theorem plainNumber_ofRat (q : Rat) : (ofRat q).PlainNumber := by
  unfold ofRat
  split <;> exact ⟨rfl, rfl⟩

@[simp]
theorem plainNumber_ofGaussian (u : Gaussian) : (ofGaussian u).PlainNumber := by
  unfold ofGaussian
  split
  · exact plainNumber_ofRat u.re
  · exact ⟨rfl, rfl⟩

theorem isNumber_ofFloat (dropFloat : Bool) (x : Float) :
    (ofFloat dropFloat x).isNumber = true := by
  unfold ofFloat
  split
  · split <;> rfl
  · rfl

/-- The simplest form of a number is a number. -/
theorem isNumber_simplify {dropFloat : Bool} {v : Value} (number : v.isNumber = true) :
    (v.simplify dropFloat).isNumber = true := by
  cases v with
  | frac q => exact (plainNumber_ofRat q).number
  | inexact x =>
    cases x with
    | real x => exact isNumber_ofFloat dropFloat x
    | complex re im =>
      rw [simplify]
      split
      · exact isNumber_ofFloat dropFloat re
      · rfl
  | formal e =>
    rw [simplify]
    unfold ofNumber
    split
    · exact (plainNumber_ofGaussian _).number
    · exact isNumber_ofFloat dropFloat _
    · rfl
  | _ => exact number

theorem PlainNumber.simplify {dropFloat : Bool} {v : Value} (plain : v.PlainNumber) :
    (v.simplify dropFloat).PlainNumber :=
  ⟨(isDecimal_simplify dropFloat v).trans plain.plain, isNumber_simplify plain.number⟩

@[simp]
theorem arithmetic_ofRat (q : Rat) : FaultsIn (·.isArithmetic = true) (Inexact.ofRat q) := by
  unfold Inexact.ofRat
  split <;> simp [Fault.isArithmetic]

theorem PlainNumber.exists_isZero {v : Value} (plain : v.PlainNumber) :
    ∃ zero, v.isZero = .ok zero := by
  rcases plain with ⟨plain, number⟩
  cases v <;> first | contradiction | exact ⟨_, rfl⟩

/-- Whether a computation leads to a number that is no decimal, unless a result is too large or
a divisor zero. -/
abbrev GivesPlain (outcome : Except Fault Value) : Prop :=
  Ends (·.isArithmetic = true) PlainNumber outcome

theorem ne_unsupported_of_isArithmetic {fault : Fault} (arithmetic : fault.isArithmetic = true) :
    fault ≠ .unsupported := by
  rintro rfl
  contradiction

theorem GivesPlain.supported {outcome : Except Fault Value} (gives : GivesPlain outcome) :
    Ends (· ≠ .unsupported) PlainNumber outcome :=
  gives.weaken fun _ => ne_unsupported_of_isArithmetic

section Operations

variable {a b : Value}

/-- An operation supports numbers that are no decimals. -/
theorem givesPlain_combine {rules : Rules} (left : a.PlainNumber) (right : b.PlainNumber)
    (integers : ∀ m n, GivesPlain (rules.integers m n))
    (rationals : ∀ p q, GivesPlain (rules.rationals p q))
    (gaussians : ∀ u v, GivesPlain (rules.gaussians u v))
    (inexacts : ∀ x y, GivesPlain (rules.inexacts x y))
    (formals : ∀ d e, GivesPlain (rules.formals d e)) : GivesPlain (rules.combine a b) := by
  have promoted : ∀ (q : Rat) (next : Inexact → Except Fault Value),
      (∀ x, GivesPlain (next x)) → GivesPlain (Inexact.ofRat q >>= next) :=
    fun q next each => .bind (arithmetic_ofRat q) fun x _ => each x
  rcases left with ⟨plain, number⟩
  rcases right with ⟨plain', number'⟩
  cases a <;> cases b <;> first
    | contradiction
    | simp [Rules.combine, formal?, isFormal, integers, rationals, gaussians, inexacts, formals,
        promoted]

theorem add_eq_combine (number : a.isNumber = true) : a.add b = addRules.combine a b := by
  cases a <;> first | rfl | contradiction

theorem mul_eq_combine (number : a.isNumber = true) (number' : b.isNumber = true) :
    a.mul b = mulRules.combine a b := by
  cases a <;> cases b <;> first | rfl | contradiction

theorem givesPlain_add (left : a.PlainNumber) (right : b.PlainNumber) : GivesPlain (a.add b) := by
  rw [add_eq_combine left.number]
  apply givesPlain_combine left right <;> simp [addRules, Value.ok, okFormal]

theorem givesPlain_sub (left : a.PlainNumber) (right : b.PlainNumber) : GivesPlain (a.sub b) := by
  apply givesPlain_combine left right <;> simp [subRules, Value.ok, okFormal]

theorem givesPlain_mul (left : a.PlainNumber) (right : b.PlainNumber) : GivesPlain (a.mul b) := by
  rw [mul_eq_combine left.number right.number]
  apply givesPlain_combine left right <;> simp [mulRules, Value.ok, okFormal]

theorem givesPlain_div (left : a.PlainNumber) (right : b.PlainNumber) : GivesPlain (a.div b) := by
  apply givesPlain_combine left right <;> intros <;>
    simp only [divRules, integerQuotient, inexactQuotient] <;> repeat' split
  all_goals simp [Value.ok, okFormal, Fault.isArithmetic]

theorem givesPlain_neg (plain : a.PlainNumber) : GivesPlain a.neg := by
  rcases plain with ⟨plain, number⟩
  cases a <;> first | contradiction | simp [neg, Value.ok, okFormal]

theorem quo_plain (left : a.PlainNumber) (right : b.PlainNumber) :
    Ends (· ≠ .unsupported) PlainNumber (a.quo b) := by
  refine .bind (supported_isZero b) fun zero _ => ?_
  split
  next => exact .bind (supported_display a) fun _ _ => by simp
  next =>
    split
    next => simp
    next =>
      exact (givesPlain_div left right).supported.andThen fun v plain => ends_ok.mpr plain.simplify

end Operations

/-! ## Decimals and integers -/

/-- Whether a value mixes with decimals. -/
def Mixes : Value → Prop
  | .int _ | .decimal _ => True
  | _ => False

@[simp]
theorem mixes_int (n : Int) : (int n).Mixes := trivial

@[simp]
theorem mixes_decimal (d : Decimal) : (decimal d).Mixes := trivial

theorem Mixes.cases {v : Value} (mixes : v.Mixes) :
    (∃ n, v = int n) ∨ ∃ d, v = decimal d := by
  cases v with
  | int n => exact .inl ⟨n, rfl⟩
  | decimal d => exact .inr ⟨d, rfl⟩
  | _ => exact mixes.elim

/-- Whether a value is an integer or a fraction. -/
def IsRational (v : Value) : Prop := ∃ q, v.rational? = some q

@[simp]
theorem isRational_int (n : Int) : (int n).IsRational := ⟨n, rfl⟩

@[simp]
theorem isRational_frac (q : Rat) : (frac q).IsRational := ⟨q, rfl⟩

@[simp]
theorem isRational_ofRat (q : Rat) : (ofRat q).IsRational := ⟨q, rational?_ofRat q⟩

theorem IsRational.cases {v : Value} (rational : v.IsRational) :
    (∃ n, v = int n) ∨ ∃ q, v = frac q := by
  rcases rational with ⟨q, denotes⟩
  cases v with
  | int n => exact .inl ⟨n, rfl⟩
  | frac q => exact .inr ⟨q, rfl⟩
  | _ => contradiction

theorem IsRational.plain {v : Value} (rational : v.IsRational) : v.Plain := by
  rcases rational.cases with ⟨n, rfl⟩ | ⟨q, rfl⟩ <;> rfl

theorem IsRational.simplest {v : Value} (rational : v.IsRational) : v.simplest.IsRational := by
  rcases rational.cases with ⟨n, rfl⟩ | ⟨q, rfl⟩
  · exact isRational_int n
  · exact isRational_ofRat q

/-- A value that mixes with decimals is an integer or a decimal. -/
theorem isRational_or_isDecimal {v : Value} (real : v.IsRational ∨ v.Mixes) :
    v.IsRational ∨ v.isDecimal = true := by
  rcases real with rational | mixes
  · exact .inl rational
  · rcases mixes.cases with ⟨n, rfl⟩ | ⟨d, rfl⟩
    · exact .inl (isRational_int n)
    · exact .inr rfl

theorem Mixes.simplest_eq {v : Value} (mixes : v.Mixes) : v.simplest = v := by
  rcases mixes.cases with ⟨n, rfl⟩ | ⟨d, rfl⟩ <;> rfl

/-- Whether a computation is supported and leads to a value that mixes with decimals. -/
abbrev GivesMixes (outcome : Except Fault Value) : Prop :=
  Ends (· ≠ .unsupported) Mixes outcome

@[simp]
theorem givesMixes_ofDecimal (result : Except DecimalSignal Decimal) :
    GivesMixes (ofDecimal result) := by
  refine ⟨supported_ofDecimal result, ?_⟩
  cases result <;> simp [ofDecimal]

section Operations

variable {a b : Value}

theorem givesMixes_combine {rules : Rules} (left : a.Mixes) (right : b.Mixes)
    (integers : ∀ m n, GivesMixes (rules.integers m n)) : GivesMixes (rules.combine a b) := by
  rcases left.cases with ⟨m, rfl⟩ | ⟨d, rfl⟩ <;> rcases right.cases with ⟨n, rfl⟩ | ⟨e, rfl⟩ <;>
    simp [Rules.combine, integers]

theorem Mixes.number (mixes : a.Mixes) : a.isNumber = true := by
  rcases mixes.cases with ⟨n, rfl⟩ | ⟨d, rfl⟩ <;> rfl

theorem givesMixes_add (left : a.Mixes) (right : b.Mixes) : GivesMixes (a.add b) := by
  rw [add_eq_combine left.number]
  exact givesMixes_combine left right (by simp [addRules])

theorem givesMixes_mul (left : a.Mixes) (right : b.Mixes) : GivesMixes (a.mul b) := by
  rw [mul_eq_combine left.number right.number]
  exact givesMixes_combine left right (by simp [mulRules])

theorem givesMixes_neg (mixes : a.Mixes) : GivesMixes a.neg := by
  rcases mixes.cases with ⟨n, rfl⟩ | ⟨d, rfl⟩ <;> simp [neg]

theorem quo_rational (left : a.IsRational) (right : b.IsRational) :
    Ends (· ≠ .unsupported) IsRational (a.quo b) := by
  rcases left with ⟨p, left⟩
  rcases right with ⟨q, right⟩
  refine .bind (supported_isZero b) fun zero _ => ?_
  split
  next => exact .bind (supported_display a) fun _ _ => by simp
  next => simp [left, right]

theorem givesMixes_quo_of_isDecimal (left : a.Mixes) (right : b.Mixes)
    (decimal : a.isDecimal = true ∨ b.isDecimal = true) : GivesMixes (a.quo b) := by
  have divided : GivesMixes (a.div b) := by
    rcases left.cases with ⟨m, rfl⟩ | ⟨d, rfl⟩ <;> rcases right.cases with ⟨n, rfl⟩ | ⟨e, rfl⟩
    · simp [isDecimal] at decimal
    all_goals exact givesMixes_ofDecimal _
  refine .bind (supported_isZero b) fun zero _ => ?_
  split
  next => exact .bind (supported_display a) fun _ _ => by simp
  next =>
    split
    next rational rational' =>
      rcases decimal with decimal | decimal
      · rw [IsRational.plain ⟨_, rational⟩] at decimal
        contradiction
      · rw [IsRational.plain ⟨_, rational'⟩] at decimal
        contradiction
    next =>
      refine divided.andThen fun v mixes => ?_
      rwa [pure_eq_ok, ends_ok, mixes.simplest_eq]

/-- An integer divided by one or minus one is an integer. -/
theorem mixes_quo_of_natAbs_eq_one (m : Int) {n : Int} (one : n.natAbs = 1) :
    Yields Mixes (quo (int m) (int n)) := by
  have whole : (m / n : Rat) = (m * n : Int) := by
    obtain rfl | rfl : n = 1 ∨ n = -1 := by omega
    · push_cast
      ring
    · push_cast
      ring
  have checked : (int n).isZero = .ok false := by
    rw [isZero, beq_eq_false_iff_ne.mpr (by omega)]
  rw [quo, checked, ok_bind, if_neg Bool.false_ne_true]
  simp only [rational?, whole, ofRat_intCast, pure_eq_ok, yields_ok, mixes_int]

/-- Only two integers may divide to a fraction. -/
theorem quo_mixes (left : a.Mixes) (right : b.Mixes) : Ends (· ≠ .unsupported)
    (fun q => q.Mixes ∨ (∃ n, b = int n) ∧ ∃ p, q = frac p) (a.quo b) := by
  by_cases decimal : a.isDecimal = true ∨ b.isDecimal = true
  · rcases givesMixes_quo_of_isDecimal left right decimal with ⟨supported, mixes⟩
    exact ⟨supported, fun q found => .inl (mixes q found)⟩
  · rcases left.cases with ⟨m, rfl⟩ | ⟨d, rfl⟩ <;> rcases right.cases with ⟨n, rfl⟩ | ⟨e, rfl⟩
    · rcases quo_rational (isRational_int m) (isRational_int n) with ⟨supported, rational⟩
      refine ⟨supported, fun q found => ?_⟩
      rcases (rational q found).cases with ⟨k, rfl⟩ | ⟨p, rfl⟩
      · exact .inl trivial
      · exact .inr ⟨⟨n, rfl⟩, p, rfl⟩
    all_goals simp [isDecimal] at decimal

end Operations

/-! ## Lists that mix decimals with other kinds -/

/-- A number has an inexact form unless it is too large for a double or a signaling NaN. -/
theorem faults_toInexact {v : Value} (number : v.isNumber = true) :
    FaultsIn (fun fault => fault = .overflow ∨ v.isDecimal = true ∧ fault = .malformed)
      v.toInexact := by
  have tidy : v.tidy.isNumber = true := isNumber_simplify number
  have settled : v.tidy.Settled := settled_simplify false v
  have same : v.tidy.isDecimal = v.isDecimal := isDecimal_simplify false v
  rw [← same]
  unfold toInexact
  generalize v.tidy = w at tidy settled
  cases w with
  | formal e => exact absurd rfl (settled e)
  | text s => contradiction
  | absent => contradiction
  | inexact x => exact faultsIn_ok _
  | exact re im nonreal => exact faultsIn_ok _
  | _ =>
    rw [faultsIn_map_iff]
    unfold toFloat
    split <;> (try split) <;> first | contradiction | simp [isDecimal]

theorem supported_toInexact {v : Value} (number : v.isNumber = true) : Supported v.toInexact := by
  intro fault failed
  rcases faults_toInexact number fault failed with rfl | ⟨-, rfl⟩ <;> simp

theorem arithmetic_toInexact {v : Value} (plain : v.PlainNumber) :
    FaultsIn (·.isArithmetic = true) v.toInexact := by
  intro fault failed
  rcases faults_toInexact plain.number fault failed with rfl | ⟨decimal, -⟩
  · rfl
  · rw [plain.plain] at decimal
    contradiction

theorem coerceDecimals_of_mixes {vs : List Value} (mixes : ∀ v ∈ vs, v.Mixes) :
    coerceDecimals vs = .ok vs := by
  unfold coerceDecimals
  rw [if_pos]
  rw [Bool.or_eq_true, List.all_eq_true]
  refine .inr fun v member => ?_
  rcases (mixes v member).cases with ⟨n, rfl⟩ | ⟨d, rfl⟩ <;> rfl

/-- Numbers that do not all mix with decimals are left without decimals. -/
theorem coerceDecimals_of_not_mixes {vs : List Value} (numbers : ∀ v ∈ vs, v.isNumber = true)
    (other : ¬ ∀ v ∈ vs, v.Mixes) : Ends (· ≠ .unsupported)
      (fun coerced => ∀ v ∈ coerced, v.PlainNumber) (coerceDecimals vs) := by
  by_cases plain : ∀ v ∈ vs, v.Plain
  · rw [coerceDecimals_of_plain plain]
    simpa using fun v member => ⟨plain v member, numbers v member⟩
  · have decimal : ¬ (!vs.any isDecimal) = true := by
      rwa [← any_isDecimal_eq_false_iff, ← Bool.not_eq_true'] at plain
    unfold coerceDecimals
    rw [if_neg]
    · constructor
      · exact .mapM fun v member => faultsIn_map_iff.mpr (supported_toInexact (numbers v member))
      · refine .mapM fun v _ x found => ?_
        rcases map_eq_ok_iff.mp found with ⟨x, -, rfl⟩
        exact plainNumber_inexact x
    · rw [Bool.or_eq_true, not_or]
      refine ⟨decimal, fun all => other fun v member => ?_⟩
      have mixes := List.all_eq_true.mp all v member
      cases v <;> first | exact trivial | contradiction

end ExactRoots.Value
