import ExactRoots.Coefficients.Quadratic
import ExactRoots.Proofs.Decimal.Range
import ExactRoots.Proofs.Value.Inexact
import ExactRoots.Proofs.Value.Range

/-!
# Quadratics with decimals

Where integers and decimals are the coefficients, the discriminant is a decimal.  Its
root is a decimal too unless the discriminant is below zero; then the root is a double
on the imaginary axis, and all operands become inexact, unless the double is zero.
-/

namespace ExactRoots

open Outcome Value

/-- Whether a fault is a signal of decimal arithmetic. -/
def Fault.IsSignal : Fault → Prop
  | .decimalInvalid | .decimalDivisionByZero | .decimalOverflow => True
  | _ => False

/-- Whether no decimal operation of a computation signals. -/
abbrev Quiet {α : Type} (outcome : Except Fault α) : Prop :=
  FaultsIn (fun fault => ¬ fault.IsSignal) outcome

/-- A quiet chain goes on after a computation that could only signal. -/
theorem Quiet.next {α β : Type} {P : α → Prop} {first : Except Fault α} {next : α → Except Fault β}
    (quiet : Quiet (first >>= next)) (ends : Ends Fault.IsSignal P first) :
    ∃ a, first = .ok a ∧ P a ∧ Quiet (next a) := by
  rcases faultsIn_bind_iff.mp quiet with ⟨quietFirst, quietNext⟩
  cases first with
  | error fault => exact absurd (ends.1 fault rfl) (quietFirst fault rfl)
  | ok a => exact ⟨a, rfl, ends.2 a rfl, quietNext a rfl⟩

namespace Value

/-! ## Finite operands -/

/-- An integer or a finite decimal. -/
inductive IsFiniteReal : Value → Prop
  | int (n : Int) : IsFiniteReal (int n)
  | decimal (s : Bool) (m : Nat) (e : Int) : IsFiniteReal (decimal (.finite s m e))

/-- What arithmetic on integers and finite decimals gives: a decimal in range, or an integer. -/
inductive Computed : Bool → Value → Prop
  | int (n : Int) : Computed false (int n)
  | decimal {d : Decimal} (inRange : d.InRange) : Computed true (decimal d)

variable {a b c v : Value} {k l : Bool}

theorem IsFiniteReal.mixes (finite : v.IsFiniteReal) : v.Mixes := by cases finite <;> trivial

theorem Computed.finite (computed : Computed k v) : v.IsFiniteReal := by
  cases computed with
  | int n => exact .int n
  | decimal inRange =>
    rcases inRange with ⟨s, m, e, rfl, -⟩
    exact .decimal s m e

theorem Computed.isDecimal_eq (computed : Computed k v) : v.isDecimal = k := by
  cases computed <;> rfl

theorem ofDecimal_error (signal : DecimalSignal) {P : Value → Prop} :
    Ends Fault.IsSignal P (ofDecimal (.error signal)) := by
  cases signal <;> exact ends_error.mpr trivial

theorem ends_ofDecimal {P : Decimal → Prop} {result : Except DecimalSignal Decimal}
    (each : ∀ d, result = .ok d → P d) :
    Ends Fault.IsSignal (fun v => ∃ d, v = decimal d ∧ P d) (ofDecimal result) := by
  cases result with
  | error signal => exact ofDecimal_error signal
  | ok d => exact ends_ok.mpr ⟨d, rfl, each d rfl⟩

theorem combine_finite {rules : Rules} (left : a.IsFiniteReal) (right : b.IsFiniteReal)
    (integers : ∀ m n, ∃ k, rules.integers m n = .ok (int k))
    (decimals : ∀ {s m e t n f d}, rules.decimals (.finite s m e) (.finite t n f) = .ok d → d.InRange) :
    Ends Fault.IsSignal (Computed (a.isDecimal || b.isDecimal)) (rules.combine a b) := by
  have inRange : ∀ {s m e t n f}, Ends Fault.IsSignal (Computed true)
      (ofDecimal (rules.decimals (.finite s m e) (.finite t n f))) := by
    intro s m e t n f
    refine (ends_ofDecimal (P := Decimal.InRange) fun d => decimals).mono ?_
    rintro v ⟨d, rfl, inRange⟩
    exact .decimal inRange
  cases left with
  | int m =>
    cases right with
    | int n =>
      rcases integers m n with ⟨k, computed⟩
      rw [Rules.combine, computed]
      exact ends_ok.mpr (.int k)
    | decimal t n f => exact inRange
  | decimal s m e =>
    cases right with
    | int n => exact inRange
    | decimal t n f => exact inRange

theorem sub_finite (left : a.IsFiniteReal) (right : b.IsFiniteReal) :
    Ends Fault.IsSignal (Computed (a.isDecimal || b.isDecimal)) (a.sub b) :=
  combine_finite left right (fun m n => ⟨m - n, rfl⟩) Decimal.inRange_of_add

theorem mul_finite (left : a.IsFiniteReal) (right : b.IsFiniteReal) :
    Ends Fault.IsSignal (Computed (a.isDecimal || b.isDecimal)) (a.mul b) := by
  rw [mul_eq_combine left.mixes.number right.mixes.number]
  exact combine_finite left right (fun m n => ⟨m * n, rfl⟩) Decimal.inRange_of_mul

theorem neg_finite (finite : a.IsFiniteReal) :
    Ends Fault.IsSignal (Computed a.isDecimal) a.neg := by
  cases finite with
  | int n => exact ends_ok.mpr (.int (-n))
  | decimal s m e =>
    refine (ends_ofDecimal (P := Decimal.InRange) fun d => Decimal.inRange_of_neg).mono ?_
    rintro v ⟨d, rfl, inRange⟩
    exact .decimal inRange

theorem isZero_finite (finite : a.IsFiniteReal) : ∃ zero, a.isZero = .ok zero := by
  cases finite with
  | int n => exact ⟨_, rfl⟩
  | decimal s m e => exact ⟨_, rfl⟩

/-- The discriminant of integers and decimals is a decimal as soon as one of them is. -/
theorem discriminant_finite (first : a.IsFiniteReal) (second : b.IsFiniteReal)
    (third : c.IsFiniteReal) (decimal : (a.isDecimal || b.isDecimal || c.isDecimal) = true) :
    Ends Fault.IsSignal (Computed true) (discriminant a b c) := by
  refine (mul_finite second second).andThen fun square squared => ?_
  refine (mul_finite (.int 4) first).andThen fun scaled scaling => ?_
  refine (mul_finite scaling.finite third).andThen fun product multiplied => ?_
  refine (sub_finite squared.finite multiplied.finite).andThen fun difference subtracted => ?_
  rw [squared.isDecimal_eq, multiplied.isDecimal_eq, scaling.isDecimal_eq, Bool.or_self] at subtracted
  have some : (b.isDecimal || ((int 4).isDecimal || a.isDecimal || c.isDecimal)) = true := by
    have plain : (int 4).isDecimal = false := rfl
    rw [plain, Bool.false_or]
    simp only [Bool.or_eq_true] at decimal ⊢
    tauto
  rw [some] at subtracted
  rwa [pure_eq_ok, ends_ok, subtracted.finite.mixes.simplest_eq]

/-! ## Roots -/

/-- The double that the root of a decimal below zero is on the imaginary axis. -/
def imaginaryRoot (d : Decimal) : Except Fault Float := do
  (← nonnegRoot (← (decimal d).neg)).toFloat

theorem sqrt_decimal {d : Decimal} (finite : (decimal d).IsFiniteReal)
    (above : d.isBelowZero = false) :
    Ends Fault.IsSignal (fun root => ∃ e, root = decimal e) (decimal d).sqrt := by
  cases finite with
  | decimal s m e =>
    have rooted : (decimal (.finite s m e)).sqrt = ofDecimal (Decimal.sqrt (.finite s m e)) := by
      simp [sqrt, isComplex, tidy, simplify, realRoot, isBelowZero, Decimal.isNaN, above, nonnegRoot]
    rw [rooted]
    refine (ends_ofDecimal (P := fun _ => True) fun _ _ => trivial).mono ?_
    rintro v ⟨e, rfl, -⟩
    exact ⟨e, rfl⟩

/-- A decimal other than zero is put on the imaginary axis as a double. -/
theorem makeComplex_decimal {m : Nat} (nonzero : m ≠ 0) (e : Int) :
    makeComplex (.int 0) (decimal (.finite false m e)) =
      .ok (complex (Binary64.ofRat 0) (Binary64.ofScientific false m e)) := by
  have checked : (decimal (.finite false m e)).isZero = .ok false := by
    simp [isZero, Decimal.isSignaling, Decimal.isZero, nonzero]
  have left : (Value.int 0).simplest = .int 0 := rfl
  have right : (decimal (.finite false m e)).simplest = decimal (.finite false m e) := rfl
  have converted : (decimal (.finite false m e)).toFloat =
      .ok (Binary64.ofScientific false m e) := rfl
  simp [makeComplex, left, right, checked, rational?, toFloat_zero, converted]

/-- The root of a decimal below zero is complex. -/
theorem sqrt_of_isBelowZero {d : Decimal} (inRange : d.InRange) (below : d.isBelowZero = true) :
    Ends Fault.IsSignal (fun root => ∃ y, root = complex (Binary64.ofRat 0) y ∧ imaginaryRoot d = .ok y)
      (decimal d).sqrt := by
  rcases inRange with ⟨s, m, e, rfl, place⟩
  have rooted : (decimal (.finite s m e)).sqrt =
      (do makeComplex (.int 0) (← nonnegRoot (← (decimal (.finite s m e)).neg))) := by
    simp [sqrt, isComplex, tidy, simplify, realRoot, isBelowZero, Decimal.isNaN, below]
  rw [Decimal.isBelowZero, Bool.and_eq_true, bne_iff_ne] at below
  obtain ⟨rfl, nonzero⟩ := below
  rw [rooted, imaginaryRoot, neg]
  cases negated : Decimal.neg (.finite true m e) with
  | error signal => exact .andThen (ofDecimal_error signal) fun _ => False.elim
  | ok n =>
    have fitted : Decimal.fit Decimal.precision false m e = .ok n := by
      simpa [Decimal.neg] using negated
    rcases Decimal.exists_of_fit fitted with ⟨k, u, rfl, place'⟩
    have nonzero' := Decimal.ne_zero_of_fit (by decide) nonzero place fitted
    rw [ofDecimal, ok_bind, ok_bind, nonnegRoot]
    cases root : Decimal.sqrt (.finite false k u) with
    | error signal => exact .andThen (ofDecimal_error signal) fun _ => False.elim
    | ok r =>
      rcases Decimal.ne_zero_of_sqrt nonzero' place' root with ⟨k', u', rfl, digits⟩
      rw [ofDecimal, ok_bind, ok_bind, toFloat, Decimal.toFloat?]
      rw [makeComplex_decimal digits]
      exact ends_ok.mpr ⟨_, rfl, rfl⟩

/-! ## Quotients -/

/-- Whether a fault is that of a divisor of zero, or of a numerator that is too long to be written in
the message, which no decimal is. -/
def RefusesZero (numerator : Value) (fault : Fault) : Prop :=
  (∃ n, fault = .zeroDivisor n) ∨ fault = .malformed ∧ numerator.isDecimal = false

/-- A quotient is a decimal when one of its operands is. -/
theorem quo_finite (left : a.Mixes) (right : b.IsFiniteReal) :
    Ends (fun fault => fault.IsSignal ∨ RefusesZero a fault ∧ b.isZero = .ok true)
      (fun v => v.isDecimal = (a.isDecimal || b.isDecimal)) (a.quo b) := by
  rcases isZero_finite right with ⟨zero, checked⟩
  rw [quo, checked, ok_bind]
  cases zero with
  | true =>
    have told : FaultsIn (RefusesZero a) a.display := by
      intro fault failed
      rcases (writtenIf_display a).faults fault failed with ⟨rfl, illegible⟩
      rcases left.cases with ⟨m, rfl⟩ | ⟨d, rfl⟩
      · exact .inr ⟨rfl, rfl⟩
      · exact absurd trivial illegible
    refine .bind (told.mono fun fault refuses => .inr ⟨refuses, rfl⟩) fun text _ => ?_
    exact ends_error.mpr (.inr ⟨.inl ⟨text, rfl⟩, rfl⟩)
  | false =>
    rw [if_neg Bool.false_ne_true]
    have signals : ∀ {result}, Ends (fun fault => fault.IsSignal ∨ RefusesZero a fault ∧
        (.ok false : Except Fault Bool) = .ok true) (fun v => v.isDecimal = true)
        (do let q ← ofDecimal result; return q.simplest) := by
      intro result
      have ends := @ends_ofDecimal (fun _ => True) result fun _ _ => trivial
      refine (ends.weaken fun fault signal => .inl signal).andThen ?_
      rintro v ⟨d, rfl, -⟩
      exact ends_ok.mpr rfl
    cases right with
    | int n =>
      rcases left.cases with ⟨m, rfl⟩ | ⟨d, rfl⟩
      · exact ends_ok.mpr (ofRat_plain _).1
      · exact signals
    | decimal t n f =>
      rcases left.cases with ⟨m, rfl⟩ | ⟨d, rfl⟩
      · exact signals
      · exact signals

end Value

/-! ## The formula -/

section Formula

variable {a b root : Value}

/-- Whether the double of a value is rounded to zero in decimal arithmetic. -/
def DoublesToZero (a : Value) : Prop := ∃ t, (Value.int 2).mul a = .ok t ∧ t.isZero = .ok true

theorem quadraticFormula_mixes {P : Fault → Prop} {k : Bool} (first : a.IsFiniteReal)
    (second : b.IsFiniteReal) (signals : ∀ fault : Fault, fault.IsSignal → P fault)
    (zeros : DoublesToZero a → ∀ n, P (.zeroDivisor n))
    (long : k = false → DoublesToZero a → P .malformed)
    (sum : ∀ n, b.neg = .ok n → Computed b.isDecimal n →
      Ends P (fun v => v.simplest.Mixes ∧ v.simplest.isDecimal = k) (n.add root))
    (gap : ∀ n, b.neg = .ok n → Computed b.isDecimal n →
      Ends P (fun v => v.simplest.Mixes ∧ v.simplest.isDecimal = k) (n.sub root)) :
    Ends P (fun roots => ∃ v w, roots = [v, w] ∧ v.isDecimal = (k || a.isDecimal) ∧
      w.isDecimal = (k || a.isDecimal)) (quadraticFormula a b root) := by
  have doubles := mul_finite (.int 2) first
  refine .bind (doubles.1.mono signals) fun t doubled => ?_
  have computed := doubles.2 t doubled
  have kind : t.isDecimal = a.isDecimal := computed.isDecimal_eq
  have divides : ∀ v : Value, v.simplest.Mixes ∧ v.simplest.isDecimal = k →
      Ends P (fun q => q.isDecimal = (k || a.isDecimal)) (v.simplest.quo t.simplest) := by
    rintro v ⟨mixes, rfl⟩
    rw [computed.finite.mixes.simplest_eq, ← kind]
    refine (quo_finite mixes computed.finite).weaken ?_
    rintro fault (signal | ⟨⟨n, rfl⟩ | ⟨rfl, integer⟩, zero⟩)
    · exact signals fault signal
    · exact zeros ⟨t, doubled, zero⟩ n
    · exact long integer ⟨t, doubled, zero⟩
  have negates := (neg_finite second).weaken signals
  refine .bind negates.1 fun n negated => ?_
  refine (sum n negated (negates.2 n negated)).andThen fun u plus => ?_
  refine (divides u plus).andThen fun v firstRoot => ?_
  refine .bind negates.1 fun n negated => ?_
  refine (gap n negated (negates.2 n negated)).andThen fun u minus => ?_
  refine (divides u minus).andThen fun w secondRoot => ?_
  exact ends_ok.mpr ⟨v, w, rfl, firstRoot, secondRoot⟩

theorem quadraticFormula_plain (first : a.PlainNumber) (second : b.PlainNumber)
    (third : root.PlainNumber) : Ends (· ≠ .unsupported)
      (fun roots => ∃ v w, roots = [v, w] ∧ v.Plain ∧ w.Plain) (quadraticFormula a b root) := by
  refine (givesPlain_mul (plainNumber_int 2) first).supported.andThen fun t doubled => ?_
  have negates := (givesPlain_neg second).supported
  refine negates.andThen fun n negated => ?_
  refine (givesPlain_add negated third).supported.andThen fun u plus => ?_
  refine (quo_plain plus.simplify doubled.simplify).andThen fun v firstRoot => ?_
  refine negates.andThen fun n negated => ?_
  refine (givesPlain_sub negated third).supported.andThen fun u minus => ?_
  refine (quo_plain minus.simplify doubled.simplify).andThen fun w secondRoot => ?_
  exact ends_ok.mpr ⟨v, w, rfl, firstRoot.plain, secondRoot.plain⟩

/-- The formula returns where nothing that it computes with is too large for a double or zero. -/
theorem exists_quadraticFormula {t n : Value} (x : Inexact) (doubled : (Value.int 2).mul a = .ok t)
    (divisor : t.simplest.HasDouble) (real : ∀ re im, t.simplest ≠ .complex re im)
    (nonzero : t.simplest.isZero = .ok false) (negated : b.neg = .ok n) (double : n.HasDouble) :
    ∃ roots, quadraticFormula a b (.inexact x) = .ok roots := by
  rcases exists_add_inexact (x := x) double with ⟨u, sum⟩
  rcases exists_sub_inexact (x := x) double with ⟨u', gap⟩
  rcases exists_quo (hasDouble_simplest u) divisor real nonzero with ⟨v, first⟩
  rcases exists_quo (hasDouble_simplest u') divisor real nonzero with ⟨w, second⟩
  exact ⟨[v, w], by simp [quadraticFormula, doubled, negated, sum, gap, first, second]⟩

/-- Whether a value is an integer that is too large for a double when it is doubled. -/
def LacksDouble (v : Value) : Prop := ∃ n : Int, v = .int n ∧ Binary64.ofRat? (2 * n : Int) = none

/-- Whether the double of a value is zero in floating arithmetic. -/
def VanishesAsDouble (v : Value) : Prop := ∃ x, v.toFloat = .ok x ∧ (2.0 * x == 0.0) = true

theorem exists_ofRat?_of_not_lacksDouble {n : Int} (has : ¬ LacksDouble (.int n)) :
    (∃ x, Binary64.ofRat? (2 * n : Int) = some x) ∧ (∃ x, Binary64.ofRat? n = some x) ∧
      ∃ x, Binary64.ofRat? (-n : Int) = some x := by
  have small : |((2 * n : Int) : Rat)| < Binary64.overflowThreshold := by
    by_contra large
    exact has ⟨n, rfl, by rw [Binary64.ofRat?_eq, if_neg large]⟩
  have less : |(n : Rat)| < Binary64.overflowThreshold := by
    rw [Int.cast_mul, abs_mul] at small
    refine lt_of_le_of_lt ?_ small
    exact le_mul_of_one_le_left (abs_nonneg _) (by norm_num)
  have negative : |((-n : Int) : Rat)| < Binary64.overflowThreshold := by
    rwa [Int.cast_neg, abs_neg]
  exact ⟨⟨_, by rw [Binary64.ofRat?_eq, if_pos small]⟩, ⟨_, by rw [Binary64.ofRat?_eq, if_pos less]⟩,
    ⟨_, by rw [Binary64.ofRat?_eq, if_pos negative]⟩⟩

/-- Integers and finite decimals have a double unless they are too large. -/
theorem toFloat_finite (finite : a.IsFiniteReal) :
    Ends (fun fault => fault ≠ .unsupported ∧ LacksDouble a) (fun _ => True) a.toFloat := by
  cases finite with
  | int n =>
    rw [toFloat]
    split
    next => exact ends_ok.mpr trivial
    next none =>
      refine ends_error.mpr ⟨by decide, ?_⟩
      by_contra has
      rcases (exists_ofRat?_of_not_lacksDouble has).2.1 with ⟨x, nearest⟩
      rw [none] at nearest
      contradiction
  | decimal s m e => exact ends_ok.mpr trivial

/-- The formula after all operands are made inexact. -/
def inexactFormula (a b root : Value) : Except Fault Coefficients := do
  let [a, b, root] ← coerceDecimals [a, b, root]
    | throw .unsupported
  quadraticFormula a b root

theorem inexactFormula_of_isDecimal (first : a.IsFiniteReal) (second : b.IsFiniteReal)
    (decimal : (a.isDecimal || b.isDecimal) = true) {x y : Float} (imaginary : (y == 0.0) = false) :
    inexactFormula a b (.complex x y) = (do
      let p ← a.toFloat
      let q ← b.toFloat
      quadraticFormula (.float p) (.float q) (.complex x y)) := by
  have converts : ∀ {v : Value}, v.IsFiniteReal →
      v.toInexact.map Value.inexact = (do return .float (← v.toFloat)) := by
    intro v finite
    cases finite with
    | int n => cases h : (Value.int n).toFloat <;> simp [toInexact, tidy, simplify, h, Except.map]
    | decimal s m e => rfl
  have root : (Value.complex x y).toInexact.map Value.inexact = .ok (.complex x y) := by
    simp [toInexact, tidy, simplify, imaginary, Except.map]
  have coerced : coerceDecimals [a, b, .complex x y] =
      [a, b, .complex x y].mapM fun v => v.toInexact.map .inexact := by
    have some : [a, b, .complex x y].any isDecimal = true := by
      simpa [isDecimal] using decimal
    rw [coerceDecimals, if_neg]
    simp [some]
  rw [inexactFormula, coerced]
  simp only [List.mapM_cons, List.mapM_nil, converts first, converts second, root]
  cases a.toFloat <;> cases b.toFloat <;> rfl

/-- The formula fails on doubles only if twice the leading one is zero. -/
theorem quadraticFormula_doubles (p q : Float) (x : Inexact) :
    Ends (fun fault => fault ≠ .unsupported ∧ (2.0 * p == 0.0) = true)
      (fun roots => ∃ v w, roots = [v, w] ∧ v.Plain ∧ w.Plain)
      (quadraticFormula (.float p) (.float q) (.inexact x)) := by
  refine Ends.failsOnlyIf (quadraticFormula_plain (plainNumber_inexact (.real p))
    (plainNumber_inexact (.real q)) (plainNumber_inexact x)) fun nonzero => ?_
  have two : Binary64.ofRat? (2 : Int) = some 2.0 := by decide
  have doubled : (Value.int 2).mul (.float p) = .ok (.float (2.0 * p)) := by
    rw [mul_eq_combine rfl rfl, Rules.combine, inexact_ofRat? two]
    rfl
  have divisor : (Value.float (2.0 * p)).simplest.isZero = .ok false := by
    rw [simplest, isZero_simplify true (by simp [Settled]), isZero_float, Except.ok.injEq,
      Bool.eq_false_iff]
    exact nonzero
  have real : ∀ re im, (Value.float (2.0 * p)).simplest ≠ .complex re im := by
    intro re im
    rw [simplest, simplify, ofFloat, if_pos rfl]
    split <;> simp
  exact exists_quadraticFormula x doubled (hasDouble_simplest _) real divisor rfl trivial

/-- The formula fails on integers only if one of them is too large. -/
theorem quadraticFormula_ints {m : Int} (nonzero : m ≠ 0) (n : Int) (x : Inexact) :
    Ends (fun fault => fault ≠ .unsupported ∧ (LacksDouble (.int m) ∨ LacksDouble (.int n)))
      (fun roots => ∃ v w, roots = [v, w] ∧ v.Plain ∧ w.Plain)
      (quadraticFormula (.int m) (.int n) (.inexact x)) := by
  refine Ends.failsOnlyIf (quadraticFormula_plain (plainNumber_int m) (plainNumber_int n)
    (plainNumber_inexact x)) fun fine => ?_
  rcases not_or.mp fine with ⟨fits, fits'⟩
  have same : (Value.int (2 * m)).simplest = .int (2 * m) := rfl
  have divisor : (Value.int (2 * m)).simplest.isZero = .ok false := by
    rw [same, isZero, beq_eq_false_iff_ne.mpr (by omega)]
  exact exists_quadraticFormula x rfl (exists_ofRat?_of_not_lacksDouble fits).1 (by simp [same])
    divisor rfl (exists_ofRat?_of_not_lacksDouble fits').2.2

/-- Beside a complex root the formula gives values that are no decimals, unless an integer is too
large or the divisor vanishes. -/
theorem inexactFormula_complex (first : a.IsFiniteReal) (second : b.IsFiniteReal)
    (nonzero : a.isZero = .ok false) {x y : Float} (imaginary : (y == 0.0) = false) :
    Ends (fun fault => fault ≠ .unsupported ∧ (LacksDouble a ∨ LacksDouble b ∨ VanishesAsDouble a))
      (fun roots => ∃ v w, roots = [v, w] ∧ v.Plain ∧ w.Plain)
      (inexactFormula a b (.complex x y)) := by
  by_cases decimal : (a.isDecimal || b.isDecimal) = true
  · rw [inexactFormula_of_isDecimal first second decimal imaginary]
    refine .bind ((toFloat_finite first).1.mono fun fault failed => ⟨failed.1, .inl failed.2⟩)
      fun p converted => ?_
    refine .bind ((toFloat_finite second).1.mono fun fault failed => ⟨failed.1, .inr (.inl failed.2)⟩)
      fun q _ => ?_
    exact (quadraticFormula_doubles p q (.complex x y)).weaken fun fault failed =>
      ⟨failed.1, .inr (.inr ⟨p, converted, failed.2⟩)⟩
  · obtain ⟨m, rfl⟩ : ∃ m, a = .int m := by
      cases first with
      | int m => exact ⟨m, rfl⟩
      | decimal => simp [isDecimal] at decimal
    obtain ⟨n, rfl⟩ : ∃ n, b = .int n := by
      cases second with
      | int n => exact ⟨n, rfl⟩
      | decimal => simp [isDecimal] at decimal
    have uncoerced : inexactFormula (.int m) (.int n) (.complex x y) =
        quadraticFormula (.int m) (.int n) (.complex x y) := by
      rw [inexactFormula, coerceDecimals_of_plain (by simp)]
      rfl
    rw [isZero, Except.ok.injEq, beq_eq_false_iff_ne] at nonzero
    rw [uncoerced]
    exact (quadraticFormula_ints nonzero n (.complex x y)).weaken fun fault failed =>
      ⟨failed.1, failed.2.imp_right .inl⟩

section Vanishing

variable {x y : Float} (real : (x == 0.0) = true) (imaginary : (y == 0.0) = true)

/-- Whether a computation leads to an integer in another form, unless an integer is too large. -/
def GivesInteger (n : Int) (outcome : Except Fault Value) : Prop :=
  Ends (fun fault => fault ≠ .unsupported ∧ Binary64.ofRat? n = none)
    (fun v => ∃ k, v.simplest = .int k) outcome

theorem simplest_of_vanishing {k : Int} (whole : Binary64.toInt? x = some k)
    (imaginary : (y == 0.0) = true) : (Value.complex x y).simplest = .int k := by
  rw [simplest, simplify, if_pos imaginary, ofFloat, if_pos rfl, whole]

theorem promote_vanishing {rules : Rules} {n : Int} (fits : ∀ z k, Binary64.toInt? z = some k →
      ∃ v, rules.inexacts (.real z) (.complex x y) = .ok v ∧ v.simplest = .int k) :
    GivesInteger n (rules.combine (.int n) (.complex x y)) := by
  rw [GivesInteger, Rules.combine, Inexact.ofRat]
  cases nearest : Binary64.ofRat? n with
  | none => exact ends_error.mpr ⟨by decide, rfl⟩
  | some z =>
    rcases Binary64.exists_toInt?_of_ofRat? nearest with ⟨k, whole⟩
    rcases fits z k whole with ⟨v, combined, simple⟩
    dsimp only
    rw [ok_bind, combined]
    exact ends_ok.mpr ⟨k, simple⟩

include real imaginary

/-- A zero with a zero on the imaginary axis that is added to an integer leaves one. -/
theorem add_vanishing (n : Int) : GivesInteger n ((Value.int n).add (.complex x y)) := by
  rw [add_eq_combine rfl]
  refine promote_vanishing fun z k whole => ⟨_, rfl, ?_⟩
  have zero := Binary64.toInt?_add_zero (x := 0.0) (Binary64.toInt?_of_beq_zero rfl) imaginary
  exact simplest_of_vanishing (Binary64.toInt?_add_zero whole real) (Binary64.beq_zero_of_toInt? zero)

theorem sub_vanishing (n : Int) : GivesInteger n ((Value.int n).sub (.complex x y)) := by
  refine promote_vanishing fun z k whole => ⟨_, rfl, ?_⟩
  have zero := Binary64.toInt?_sub_zero (x := 0.0) (Binary64.toInt?_of_beq_zero rfl) imaginary
  exact simplest_of_vanishing (Binary64.toInt?_sub_zero whole real) (Binary64.beq_zero_of_toInt? zero)

/-- Beside a complex zero an integer coefficient stays an integer, so that the formula gives
decimals when the leading coefficient is one. -/
theorem quadraticFormula_vanishing (first : a.IsFiniteReal) (n : Int) :
    Ends (fun fault => fault.IsSignal ∨
        fault ≠ .unsupported ∧ (LacksDouble (.int n) ∨ DoublesToZero a))
      (fun roots => ∃ v w, roots = [v, w] ∧ v.isDecimal = a.isDecimal ∧ w.isDecimal = a.isDecimal)
      (quadraticFormula a (.int n) (.complex x y)) := by
  have lacks : Binary64.ofRat? (-n : Int) = none → LacksDouble (.int n) := by
    intro none
    by_contra has
    rcases (exists_ofRat?_of_not_lacksDouble has).2.2 with ⟨z, nearest⟩
    rw [none] at nearest
    contradiction
  have kept : ∀ {outcome : Except Fault Value}, GivesInteger (-n) outcome →
      Ends (fun fault => fault.IsSignal ∨
          fault ≠ .unsupported ∧ (LacksDouble (.int n) ∨ DoublesToZero a))
        (fun v => v.simplest.Mixes ∧ v.simplest.isDecimal = false) outcome := by
    intro outcome gives
    refine (gives.weaken fun fault failed => .inr ⟨failed.1, .inl (lacks failed.2)⟩).mono ?_
    rintro v ⟨k, simple⟩
    rw [simple]
    exact ⟨trivial, rfl⟩
  have formula := @quadraticFormula_mixes a (.int n) (.complex x y)
    (fun fault => fault.IsSignal ∨
      fault ≠ .unsupported ∧ (LacksDouble (.int n) ∨ DoublesToZero a)) false first (.int n)
    (fun fault signal => .inl signal) (fun zero m => .inr ⟨nofun, .inr zero⟩)
    (fun _ zero => .inr ⟨nofun, .inr zero⟩)
    (by rintro m ⟨⟩ -; exact kept (add_vanishing real imaginary (-n)))
    (by rintro m ⟨⟩ -; exact kept (sub_vanishing real imaginary (-n)))
  simpa only [Bool.false_or] using formula

end Vanishing

/-- A decimal coefficient is not supported beside a complex number. -/
theorem quadraticFormula_unsupported {d : Decimal} (first : a.IsFiniteReal)
    (second : (Value.decimal d).IsFiniteReal) (x : Inexact)
    (quiet : Quiet (quadraticFormula a (.decimal d) (.inexact x))) :
    quadraticFormula a (.decimal d) (.inexact x) = .error .unsupported := by
  unfold quadraticFormula at quiet ⊢
  rcases quiet.next (mul_finite (.int 2) first) with ⟨t, doubled, -, quiet⟩
  rcases quiet.next (neg_finite second) with ⟨n, negated, ⟨⟩, quiet⟩
  rw [doubled, ok_bind, negated, ok_bind]
  rfl

theorem exists_decimal {v : Value} (decimal : v.isDecimal = true) : ∃ d, v = .decimal d := by
  cases v with
  | decimal d => exact ⟨d, rfl⟩
  | _ => contradiction

/-- Beside a decimal root the formula gives decimals. -/
theorem quadraticFormula_decimal (first : a.IsFiniteReal) (second : b.IsFiniteReal) (d : Decimal) :
    Ends (fun fault => fault.IsSignal ∨ (∃ n, fault = .zeroDivisor n) ∧ DoublesToZero a)
      (fun roots => ∃ x y, roots = [.decimal x, .decimal y])
      (quadraticFormula a b (.decimal d)) := by
  have combined : ∀ {rules : Rules} {n : Value}, n.IsFiniteReal →
      Ends (fun fault => fault.IsSignal ∨ (∃ n, fault = .zeroDivisor n) ∧ DoublesToZero a)
        (fun v => v.simplest.Mixes ∧ v.simplest.isDecimal = true)
        (rules.combine n (.decimal d)) := by
    intro rules n finite
    obtain ⟨result, same⟩ : ∃ result, rules.combine n (.decimal d) = ofDecimal result := by
      cases finite <;> exact ⟨_, rfl⟩
    rw [same]
    refine ((ends_ofDecimal (P := fun _ => True) fun _ _ => trivial).weaken
      fun fault signal => .inl signal).mono ?_
    rintro v ⟨e, rfl, -⟩
    exact ⟨trivial, rfl⟩
  refine (quadraticFormula_mixes (k := true) first second (fun fault signal => .inl signal)
    (fun zero n => .inr ⟨⟨n, rfl⟩, zero⟩) nofun ?_ ?_).mono ?_
  · intro n _ negated
    rw [add_eq_combine negated.finite.mixes.number]
    exact combined negated.finite
  · intro n _ negated
    exact combined negated.finite
  · rintro roots ⟨v, w, rfl, left, right⟩
    rcases exists_decimal left with ⟨x, rfl⟩
    rcases exists_decimal right with ⟨y, rfl⟩
    exact ⟨x, y, rfl⟩

end Formula

section Solve

variable {a b c : Value} (first : a.IsFiniteReal) (second : b.IsFiniteReal)
  (third : c.IsFiniteReal) (nonzero : a.isZero = .ok false)

include first second third nonzero

theorem solveQuadratic_eq : solveQuadratic a b c = (do
    let root ← (← discriminant a b c).sqrt
    if root.isComplex then inexactFormula a b root else quadraticFormula a b root) := by
  have mixes : ∀ v ∈ [a, b, c], v.Mixes := by
    simp [first.mixes, second.mixes, third.mixes]
  rw [solveQuadratic, first.mixes.simplest_eq, second.mixes.simplest_eq, third.mixes.simplest_eq,
    coerceDecimals_of_mixes mixes, ok_bind]
  simp only [nonzero, ok_bind, Bool.false_eq_true, if_false]
  rfl

/-- Without a signal the roots of a quadratic with decimals are two decimals if the discriminant is
not below zero.  Below zero they are two values of other kinds if the root of the discriminant is a
double other than zero, and operands are unsupported only if it is zero beside a decimal linear
coefficient. -/
theorem solveQuadratic_decimals (decimal : (a.isDecimal || b.isDecimal || c.isDecimal) = true)
    (quiet : Quiet (solveQuadratic a b c)) :
    ∃ d, discriminant a b c = .ok (.decimal d) ∧
      (d.isBelowZero = false → (∃ x y, solveQuadratic a b c = .ok [.decimal x, .decimal y]) ∨
        ∃ n, solveQuadratic a b c = .error (.zeroDivisor n) ∧ DoublesToZero a) ∧
      (d.isBelowZero = true → ∃ y, imaginaryRoot d = .ok y ∧
        ((y == 0.0) = false →
          (∃ v w, solveQuadratic a b c = .ok [v, w] ∧ v.Plain ∧ w.Plain) ∨
            ∃ fault, solveQuadratic a b c = .error fault ∧ fault ≠ .unsupported ∧
              (LacksDouble a ∨ LacksDouble b ∨ VanishesAsDouble a)) ∧
        ((y == 0.0) = true → b.isDecimal = true → solveQuadratic a b c = .error .unsupported) ∧
        ((y == 0.0) = true → b.isDecimal = false →
          (∃ v w, solveQuadratic a b c = .ok [v, w] ∧ v.isDecimal = a.isDecimal ∧
            w.isDecimal = a.isDecimal) ∨
            ∃ fault, solveQuadratic a b c = .error fault ∧ fault ≠ .unsupported ∧
              (LacksDouble b ∨ DoublesToZero a))) := by
  rw [solveQuadratic_eq first second third nonzero] at quiet ⊢
  rcases quiet.next (discriminant_finite first second third decimal) with
    ⟨v, computed, ⟨⟩ | @⟨d, inRange⟩, quiet⟩
  refine ⟨d, computed, ?_, ?_⟩ <;> rw [computed, ok_bind]
  · intro above
    rcases quiet.next (sqrt_decimal (Computed.decimal inRange).finite above) with
      ⟨root, rooted, ⟨e, rfl⟩, quiet⟩
    rw [rooted, ok_bind]
    change Quiet (quadraticFormula a b (.decimal e)) at quiet
    change (∃ x y, quadraticFormula a b (.decimal e) = _) ∨
      ∃ n, quadraticFormula a b (.decimal e) = _ ∧ _
    rcases (quadraticFormula_decimal first second e).cases with
      ⟨roots, returned, x, y, rfl⟩ | ⟨fault, failed, signal | ⟨⟨n, rfl⟩, zero⟩⟩
    · exact .inl ⟨x, y, returned⟩
    · exact absurd signal (quiet fault failed)
    · exact .inr ⟨n, failed, zero⟩
  · intro below
    rcases quiet.next (sqrt_of_isBelowZero inRange below) with
      ⟨root, rooted, ⟨y, rfl, imaginary⟩, quiet⟩
    have kind : (Value.complex (Binary64.ofRat 0) y).isComplex = !(y == 0.0) := by
      rw [isComplex, tidy, simplify]
      cases y == 0.0 <;> rfl
    have real : (Binary64.ofRat 0 == 0.0) = true := by decide
    refine ⟨y, imaginary, ?_, ?_, ?_⟩ <;> intro zero <;> rw [rooted, ok_bind] <;>
      simp only [kind, zero, Bool.not_false, Bool.not_true, if_true, Bool.false_eq_true, if_false]
        at quiet ⊢
    · rcases (inexactFormula_complex first second nonzero zero).cases with
        ⟨roots, returned, v, w, rfl, plain⟩ | failed
      · exact .inl ⟨v, w, returned, plain⟩
      · exact .inr failed
    · intro linear
      rcases exists_decimal linear with ⟨e, rfl⟩
      exact quadraticFormula_unsupported first second _ quiet
    · intro linear
      obtain ⟨n, rfl⟩ : ∃ n, b = .int n := by
        cases second with
        | int n => exact ⟨n, rfl⟩
        | decimal => contradiction
      rcases (quadraticFormula_vanishing real zero first n).cases with
        ⟨roots, returned, v, w, rfl, kinds⟩ | ⟨fault, failed, signal | cause⟩
      · exact .inl ⟨v, w, returned, kinds⟩
      · exact absurd signal (quiet fault failed)
      · exact .inr ⟨fault, failed, cause⟩

omit first second third nonzero in
theorem quiet_of_isOk {outcome : Except Fault Coefficients} (returns : outcome.isOk = true) :
    Quiet outcome := by
  rcases isOk_iff.mp returns with ⟨roots, rfl⟩
  exact faultsIn_ok roots

omit first second third nonzero in
/-- The roots of x² - 3x + 2 with decimals are decimals. -/
theorem solveQuadratic_decimals_real :
    let a : Value := .int 1
    let b : Value := .decimal (.finite true 3 0)
    let c : Value := .decimal (.finite false 2 0)
    a.IsFiniteReal ∧ b.IsFiniteReal ∧ c.IsFiniteReal ∧ a.isZero = .ok false ∧
      (a.isDecimal || b.isDecimal || c.isDecimal) = true ∧ Quiet (solveQuadratic a b c) ∧
      ((∃ x y, solveQuadratic a b c = .ok [.decimal x, .decimal y]) ∨
        ∃ n, solveQuadratic a b c = .error (.zeroDivisor n) ∧ DoublesToZero a) := by
  intro a b c
  have first : a.IsFiniteReal := .int 1
  have second : b.IsFiniteReal := .decimal true 3 0
  have third : c.IsFiniteReal := .decimal false 2 0
  have quiet : Quiet (solveQuadratic a b c) := quiet_of_isOk (by decide +kernel)
  rcases solveQuadratic_decimals first second third rfl rfl quiet with ⟨d, computed, above, -⟩
  have discriminated : discriminant a b c = .ok (.decimal (.finite false 1 0)) :=
    toOption_eq_some_iff.mp (by decide)
  rw [discriminated] at computed
  cases computed
  exact ⟨first, second, third, rfl, rfl, quiet, above rfl⟩

omit first second third nonzero in
/-- The root of the discriminant of x² + 1E-800 has no double but zero, which is not supported
beside a decimal. -/
theorem solveQuadratic_tiny_unsupported :
    solveQuadratic (.int 1) (.decimal (.finite false 0 0)) (.decimal (.finite false 1 (-800))) =
      .error .unsupported :=
  fault?_eq_some_iff.mp (by decide +kernel)

end Solve

end ExactRoots
