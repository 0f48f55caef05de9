import ExactRoots.Coefficients.Division
import ExactRoots.Proofs.Value.Kinds

/-!
# Fractions and decimals in a division

A division refuses its operands for one reason: the entries are decimals and
integers, two integers divide to a fraction, and the fraction meets a decimal when
it is multiplied out.  Nothing else that it computes is unsupported.
-/

namespace ExactRoots.Coefficients

open Value Outcome

/-- The quotient that closes a column. -/
def closeColumn (lead c : Value) : Except Fault Value := do
  if ← lead.equals (.int 1) then pure c else c.quo lead

theorem divideRow_succ (lead : Value) (lower : Coefficients) (steps : Nat) (c : Value)
    (cs : Coefficients) : divideRow lead lower (steps + 1) (c :: cs) = do
      let q ← closeColumn lead c
      let rest ← divideRow lead lower steps (← subtractMultiple q lower cs)
      return ⟨q :: rest.quotient, rest.remainder⟩ := by
  cases h : lead.equals (.int 1) with
  | error fault => simp [divideRow, closeColumn, h]
  | ok isOne => cases isOne <;> simp [divideRow, closeColumn, h]

/-- A column after a multiple of a coefficient of the divisor is subtracted from it. -/
def column (q d c : Value) : Except Fault Value := do
  return (← c.add (← q.mul (← d.neg))).simplest

theorem subtractMultiple_cons (q d c : Value) (ds cs : Coefficients) :
    subtractMultiple q (d :: ds) (c :: cs) = do
      let next ← column q d c
      return next :: (← subtractMultiple q ds cs) := by
  simp [subtractMultiple, column]

section Row

variable {q lead : Value} {lower row : Coefficients}

theorem forall_of_forall₂ {R : Value → Value → Prop} {P Q : Value → Prop} {cs vs : Coefficients}
    (related : List.Forall₂ R cs vs) (each : ∀ c v, R c v → P c → Q v) (all : ∀ c ∈ cs, P c) :
    ∀ v ∈ vs, Q v := by
  induction related with
  | nil => simp
  | cons first _ ih =>
    rw [List.forall_mem_cons] at all ⊢
    exact ⟨each _ _ first all.1, ih all.2⟩

/-- What every column is related to by one product, the row is related to by all of them. -/
theorem subtractMultiple_forall₂ {F : Fault → Prop} {R : Value → Value → Prop}
    (untouched : ∀ c ∈ row, R c c)
    (each : ∀ d ∈ lower, ∀ c ∈ row, Ends F (R c) (column q d c)) :
    Ends F (List.Forall₂ R row) (subtractMultiple q lower row) := by
  induction lower generalizing row with
  | nil => simpa [subtractMultiple, List.forall₂_same] using untouched
  | cons d ds ih =>
    cases row with
    | nil => simp [subtractMultiple]
    | cons c cs =>
      rw [List.forall_mem_cons] at untouched each
      rw [subtractMultiple_cons]
      refine (each.1 c List.mem_cons_self).andThen fun v next => ?_
      refine (ih untouched.2 fun d divides c entry =>
        each.2 d divides c (List.mem_cons_of_mem _ entry)).andThen fun vs rest => ?_
      exact ends_ok.mpr (.cons next rest)

/-- What holds of a row and of all new columns holds of the row that follows. -/
theorem subtractMultiple_forall {F : Fault → Prop} {P : Value → Prop}
    (untouched : ∀ c ∈ row, P c) (each : ∀ d ∈ lower, ∀ c ∈ row, Ends F P (column q d c)) :
    Ends F (fun rest => ∀ c ∈ rest, P c) (subtractMultiple q lower row) := by
  rcases subtractMultiple_forall₂ (R := fun _ => P) untouched each with ⟨faults, related⟩
  exact ⟨faults, fun rest found =>
    forall_of_forall₂ (related rest found) (fun _ _ holds _ => holds) untouched⟩

/-! ## Numbers without decimals -/

theorem givesPlain_column {d c : Value} (multiple : q.PlainNumber) (left : d.PlainNumber)
    (right : c.PlainNumber) : GivesPlain (column q d c) := by
  refine (givesPlain_neg left).andThen fun e negated => ?_
  refine (givesPlain_mul multiple negated).andThen fun p product => ?_
  exact (givesPlain_add right product).andThen fun v sum => ends_ok.mpr sum.simplify

theorem closeColumn_plain {c : Value} (leads : lead.PlainNumber) (plain : c.PlainNumber) :
    Ends (· ≠ .unsupported) PlainNumber (closeColumn lead c) := by
  refine .bind (supported_equals _ _) fun isOne _ => ?_
  split
  next => exact ends_ok.mpr plain
  next => exact quo_plain plain leads

theorem supported_divideRow (leads : lead.PlainNumber) (divisor : ∀ d ∈ lower, d.PlainNumber)
    (plain : ∀ c ∈ row, c.PlainNumber) (steps : Nat) :
    Supported (divideRow lead lower steps row) := by
  induction steps generalizing row with
  | zero => simp [divideRow]
  | succ steps ih =>
    cases row with
    | nil => simp [divideRow]
    | cons c cs =>
      rw [List.forall_mem_cons] at plain
      rcases closeColumn_plain leads plain.1 with ⟨supported, closed⟩
      rw [divideRow_succ]
      simp only [faultsIn_bind_iff, pure_eq_ok, faultsIn_ok, implies_true, and_true]
      refine ⟨supported, fun q found => ?_⟩
      rcases subtractMultiple_forall plain.2 fun d divides c entry =>
        (givesPlain_column (closed q found) (divisor d divides) (plain.2 c entry)).supported
        with ⟨supported', rest⟩
      exact ⟨supported', fun row found => ih (rest row found)⟩

/-! ## Decimals and integers -/

/-- A fraction that is multiplied by the lower coefficients of a divisor meets a decimal, either
among those or in a column that a product is added to. -/
inductive Meets : Coefficients → Coefficients → Prop
  | factor {d e : Value} (c : Value) (ds cs : Coefficients) (decimal : d.isDecimal = true)
      (negated : d.neg = .ok e) : Meets (d :: ds) (c :: cs)
  | column {d c : Value} (ds cs : Coefficients) (plain : d.Plain) (decimal : c.isDecimal = true) :
      Meets (d :: ds) (c :: cs)
  | later {d c : Value} {ds cs : Coefficients} (plain : d.Plain) (plain' : c.Plain)
      (rest : Meets ds cs) : Meets (d :: ds) (c :: cs)

/-- Closing the columns of a row comes to one whose quotient is a fraction that meets a decimal. -/
inductive Clashes (lead : Value) (lower : Coefficients) : Nat → Coefficients → Prop
  | here {c : Value} {cs : Coefficients} {q : Rat} (steps : Nat)
      (closed : closeColumn lead c = .ok (.frac q)) (meets : Meets lower cs) :
      Clashes lead lower (steps + 1) (c :: cs)
  | later {c q : Value} {cs rest : Coefficients} {steps : Nat} (closed : closeColumn lead c = .ok q)
      (subtracted : subtractMultiple q lower cs = .ok rest) (clashes : Clashes lead lower steps rest) :
      Clashes lead lower (steps + 1) (c :: cs)

section Column

variable {c d : Value}

theorem givesMixes_column (multiple : q.Mixes) (left : d.Mixes) (right : c.Mixes) :
    GivesMixes (column q d c) := by
  refine (givesMixes_neg left).andThen fun e negated => ?_
  refine (givesMixes_mul multiple negated).andThen fun p product => ?_
  refine (givesMixes_add right product).andThen fun v sum => ?_
  rwa [pure_eq_ok, ends_ok, sum.simplest_eq]

theorem column_rational (multiple : q.IsRational) (right : c.IsRational) (n : Int) :
    ∃ v, column q (.int n) c = .ok v ∧ v.IsRational := by
  rcases multiple.cases with ⟨m, rfl⟩ | ⟨p, rfl⟩ <;> rcases right.cases with ⟨k, rfl⟩ | ⟨r, rfl⟩
  · exact ⟨_, rfl, isRational_int _⟩
  all_goals exact ⟨_, rfl, isRational_ofRat _⟩

/-- A column whose entry becomes one of the same kind. -/
structure Keeps (c v : Value) : Prop where
  rational : c.IsRational → v.IsRational
  mixes : c.Mixes → v.Mixes

theorem keeps_column (k : Int) (integer : ∃ n, d = .int n) (real : c.IsRational ∨ c.Mixes) :
    Ends (· ≠ .unsupported) (Keeps c) (column (.int k) d c) := by
  rcases integer with ⟨n, rfl⟩
  have rational := fun rational => column_rational (c := c) (isRational_int k) rational n
  have mixes := fun mixes => givesMixes_column (c := c) (mixes_int k) (mixes_int n) mixes
  constructor
  · rcases real with isRational | isMixed
    · rcases rational isRational with ⟨v, computed, -⟩
      rw [computed]
      exact faultsIn_ok v
    · exact (mixes isMixed).1
  · intro v computed
    refine ⟨fun isRational => ?_, fun isMixed => (mixes isMixed).2 v computed⟩
    rcases rational isRational with ⟨v', computed', kept⟩
    rw [computed] at computed'
    cases computed'
    exact kept

theorem column_frac_int {p : Rat} {n : Int} (decimal : c.isDecimal = true) :
    column (.frac p) (.int n) c = .error .unsupported := by
  cases c with
  | decimal e => rfl
  | _ => contradiction

theorem column_frac_decimal {p : Rat} {e : Decimal} {v : Value}
    (negated : neg (.decimal e) = .ok v) :
    column (.frac p) (.decimal e) c = .error .unsupported := by
  rw [column, negated]
  cases negation : e.neg with
  | ok e' =>
    rw [neg, negation] at negated
    cases negated
    rfl
  | error signal =>
    rw [neg, negation] at negated
    contradiction

end Column

/-- Beside an integer and a rational entry no fraction meets a decimal. -/
theorem meets_cons_iff {c : Value} {ds cs : Coefficients} (n : Int) (rational : c.IsRational) :
    Meets (.int n :: ds) (c :: cs) ↔ Meets ds cs := by
  constructor
  · rintro (_ | ⟨_, _, _, decimal⟩ | ⟨_, _, meets⟩)
    · contradiction
    · rw [rational.plain] at decimal
      contradiction
    · exact meets
  · exact .later rfl rational.plain

/-- A decimal that cannot be negated is not met. -/
theorem not_meets_of_neg_eq_error {c : Value} {ds cs : Coefficients} {e : Decimal} {fault : Fault}
    (failed : neg (.decimal e) = .error fault) : ¬ Meets (.decimal e :: ds) (c :: cs) := by
  rintro (⟨_, _, _, _, negated⟩ | ⟨_, _, plain, _⟩ | ⟨plain, _, _⟩)
  · rw [failed] at negated
    contradiction
  · contradiction
  · contradiction

/-- A fraction times the lower coefficients is not supported exactly where it meets a decimal.
Elsewhere those are integers, and fractions only come into their columns. -/
theorem subtractMultiple_frac (p : Rat) (divisor : ∀ d ∈ lower, d.Mixes)
    (real : ∀ c ∈ row, c.IsRational ∨ c.Mixes) :
    (subtractMultiple (.frac p) lower row = .error .unsupported ↔ Meets lower row) ∧
      ∀ rest, subtractMultiple (.frac p) lower row = .ok rest → lower.length ≤ row.length →
        (∀ d ∈ lower, ∃ n, d = .int n) ∧ (∀ c ∈ rest.take lower.length, c.IsRational) ∧
          rest.drop lower.length = row.drop lower.length := by
  induction lower generalizing row with
  | nil =>
    refine ⟨⟨nofun, nofun⟩, ?_⟩
    intro rest subtracted _
    cases subtracted
    exact ⟨nofun, nofun, rfl⟩
  | cons d ds ih =>
    cases row with
    | nil => exact ⟨⟨nofun, nofun⟩, fun rest _ long => absurd long (by simp)⟩
    | cons c cs =>
      rw [List.forall_mem_cons] at divisor real
      rcases ih divisor.2 real.2 with ⟨refused, left⟩
      rw [subtractMultiple_cons]
      rcases divisor.1.cases with ⟨n, rfl⟩ | ⟨e, rfl⟩
      · rcases isRational_or_isDecimal real.1 with rational | decimal
        · rcases column_rational (isRational_frac p) rational n with ⟨v, computed, next⟩
          rw [computed, ok_bind]
          constructor
          · rw [bind_eq_error_iff, refused, meets_cons_iff n rational]
            simp [pure_eq_ok]
          · intro rest subtracted long
            rcases bind_eq_ok_iff.mp subtracted with ⟨vs, found, same⟩
            cases same
            rcases left vs found (by simpa using long) with ⟨integers, front, back⟩
            refine ⟨List.forall_mem_cons.mpr ⟨⟨n, rfl⟩, integers⟩, ?_, back⟩
            exact List.forall_mem_cons.mpr ⟨next, front⟩
        · rw [column_frac_int decimal]
          exact ⟨⟨fun _ => .column ds cs rfl decimal, fun _ => rfl⟩, nofun⟩
      · cases negated : neg (.decimal e) with
        | ok v =>
          rw [column_frac_decimal negated]
          exact ⟨⟨fun _ => .factor c ds cs rfl negated, fun _ => rfl⟩, nofun⟩
        | error fault =>
          have other := (givesMixes_neg (mixes_decimal e)).1 fault negated
          rw [column, negated]
          exact ⟨⟨fun failed => absurd (Except.error.inj failed) other,
            fun meets => absurd meets (not_meets_of_neg_eq_error negated)⟩, nofun⟩

/-- The rows that a division of decimals and integers comes to.  Fractions stand in front of all
decimals, and not beside a divisor with decimals. -/
inductive Tame (lead : Value) (lower row : Coefficients) : Prop
  | mixes (entries : ∀ c ∈ row, c.Mixes)
  | fractions (count : Nat) (few : count ≤ lower.length) (leads : ∃ n, lead = .int n)
      (integers : ∀ d ∈ lower, ∃ n, d = .int n) (front : ∀ c ∈ row.take count, c.IsRational)
      (back : ∀ c ∈ row.drop count, c.Mixes)

theorem closeColumn_mixes {c : Value} (leads : lead.Mixes) (entry : c.Mixes) :
    Ends (· ≠ .unsupported) (fun q => q.Mixes ∨ (∃ n, lead = .int n) ∧ ∃ p, q = .frac p)
      (closeColumn lead c) := by
  refine .bind (supported_equals _ _) fun isOne _ => ?_
  split
  next => exact ends_ok.mpr (.inl entry)
  next => exact quo_mixes entry leads

theorem closeColumn_rational {c : Value} (n : Int) (rational : c.IsRational) :
    Ends (· ≠ .unsupported) IsRational (closeColumn (.int n) c) := by
  refine .bind (supported_equals _ _) fun isOne _ => ?_
  split
  next => exact ends_ok.mpr rational
  next => exact quo_rational rational (isRational_int n)

theorem length_subtractMultiple {rest : Coefficients}
    (subtracted : subtractMultiple q lower row = .ok rest) : rest.length = row.length := by
  induction lower generalizing row rest with
  | nil => cases subtracted; rfl
  | cons d ds ih =>
    cases row with
    | nil => cases subtracted; rfl
    | cons c cs =>
      rw [subtractMultiple_cons] at subtracted
      rcases bind_eq_ok_iff.mp subtracted with ⟨v, -, subtracted⟩
      rcases bind_eq_ok_iff.mp subtracted with ⟨vs, found, same⟩
      cases same
      simp [ih found]

section Step

variable {c : Value} {cs : Coefficients} (leads : lead.Mixes) (divisor : ∀ d ∈ lower, d.Mixes)

include divisor in
/-- Subtracting a fraction times the divisor is supported unless the fraction meets a decimal, and
then the row that follows is tame. -/
theorem tame_of_frac (real : ∀ c ∈ cs, c.IsRational ∨ c.Mixes) (back : ∀ c ∈ cs.drop lower.length, c.Mixes)
    (long : lower.length ≤ cs.length) (integer : ∃ n, lead = .int n) (p : Rat) :
    (subtractMultiple (.frac p) lower cs = .error .unsupported ↔
      (∃ p', Value.frac p = .frac p') ∧ Meets lower cs) ∧
      Yields (Tame lead lower) (subtractMultiple (.frac p) lower cs) := by
  rcases subtractMultiple_frac p divisor real with ⟨refused, left⟩
  refine ⟨by simpa using refused, fun rest subtracted => ?_⟩
  rcases left rest subtracted long with ⟨integers, front, kept⟩
  exact .fractions lower.length le_rfl integer integers front (kept ▸ back)

/-- Closing the leading column of a row that is tame is supported, and subtracting the products is
unless the quotient is a fraction that meets a decimal; then the row that follows is tame. -/
def StepsTamely (lead : Value) (lower : Coefficients) (c : Value) (cs : Coefficients) : Prop :=
  Supported (closeColumn lead c) ∧ ∀ q, closeColumn lead c = .ok q →
    (subtractMultiple q lower cs = .error .unsupported ↔ (∃ p, q = .frac p) ∧ Meets lower cs) ∧
      Yields (Tame lead lower) (subtractMultiple q lower cs)

include leads divisor in
theorem stepsTamely_of_mixes (entries : ∀ v ∈ c :: cs, v.Mixes) (long : lower.length ≤ cs.length) :
    StepsTamely lead lower c cs := by
  rw [List.forall_mem_cons] at entries
  rcases closeColumn_mixes leads entries.1 with ⟨supported, closes⟩
  refine ⟨supported, fun q closed => ?_⟩
  rcases closes q closed with multiple | ⟨integer, p, rfl⟩
  · rcases subtractMultiple_forall entries.2 fun d divides c entry =>
      givesMixes_column multiple (divisor d divides) (entries.2 c entry) with ⟨supported', rest⟩
    refine ⟨⟨fun refused => absurd rfl (supported' _ refused), ?_⟩,
      fun row subtracted => .mixes (rest row subtracted)⟩
    rintro ⟨⟨p, rfl⟩, -⟩
    exact multiple.elim
  · exact tame_of_frac divisor (fun c entry => .inr (entries.2 c entry))
      (fun c entry => entries.2 c (List.mem_of_mem_drop entry)) long integer p

include leads divisor in
theorem Tame.step (tame : Tame lead lower (c :: cs)) (long : lower.length ≤ cs.length) :
    StepsTamely lead lower c cs := by
  rcases tame with entries | ⟨_ | count, few, ⟨n, rfl⟩, integers, front, back⟩
  · exact stepsTamely_of_mixes leads divisor entries long
  · exact stepsTamely_of_mixes leads divisor back long
  · rw [List.take_succ_cons, List.forall_mem_cons] at front
    rw [List.drop_succ_cons] at back
    have real : ∀ v ∈ cs, v.IsRational ∨ v.Mixes := by
      intro v entry
      rw [← List.take_append_drop count cs, List.mem_append] at entry
      exact entry.imp (front.2 v) (back v)
    rcases closeColumn_rational n front.1 with ⟨supported, closes⟩
    refine ⟨supported, fun q closed => ?_⟩
    rcases (closes q closed).cases with ⟨k, rfl⟩ | ⟨p, rfl⟩
    · rcases subtractMultiple_forall₂ (R := Keeps) (fun _ _ => ⟨id, id⟩) fun d divides c entry =>
        keeps_column k (integers d divides) (real c entry) with ⟨supported', rest⟩
      refine ⟨⟨fun refused => absurd rfl (supported' _ refused), nofun⟩, fun row subtracted => ?_⟩
      have kept := rest row subtracted
      refine .fractions count (by omega) ⟨n, rfl⟩ integers ?_ ?_
      · exact forall_of_forall₂ (List.forall₂_take count kept) (fun _ _ keeps => keeps.rational) front.2
      · exact forall_of_forall₂ (List.forall₂_drop count kept) (fun _ _ keeps => keeps.mixes) back
    · refine tame_of_frac divisor real (fun v entry => back v ?_) long ⟨n, rfl⟩ p
      exact List.drop_subset_drop_left cs (by omega) entry

end Step

theorem divideRow_unsupported_iff (leads : lead.Mixes) (divisor : ∀ d ∈ lower, d.Mixes)
    (tame : Tame lead lower row) {steps : Nat} (length : row.length = steps + lower.length) :
    divideRow lead lower steps row = .error .unsupported ↔ Clashes lead lower steps row := by
  induction steps generalizing row with
  | zero => exact ⟨nofun, nofun⟩
  | succ steps ih =>
    cases row with
    | nil => simp at length; omega
    | cons c cs =>
      rw [List.length_cons] at length
      rcases tame.step leads divisor (by omega) with ⟨supported, next⟩
      have follows : ∀ q rest, closeColumn lead c = .ok q → subtractMultiple q lower cs = .ok rest →
          (divideRow lead lower steps rest = .error .unsupported ↔
            Clashes lead lower steps rest) := by
        intro q rest closed subtracted
        exact ih ((next q closed).2 rest subtracted) (by rw [length_subtractMultiple subtracted]; omega)
      rw [divideRow_succ, bind_eq_error_iff]
      constructor
      · rintro (refused | ⟨q, closed, refused⟩)
        · exact absurd rfl (supported _ refused)
        rcases bind_eq_error_iff.mp refused with refused | ⟨rest, subtracted, refused⟩
        · rcases (next q closed).1.mp refused with ⟨⟨p, rfl⟩, meets⟩
          exact .here steps closed meets
        · rcases bind_eq_error_iff.mp refused with refused | ⟨_, _, done⟩
          · exact .later closed subtracted ((follows q rest closed subtracted).mp refused)
          · contradiction
      · rintro (⟨_, closed, meets⟩ | ⟨closed, subtracted, clashes⟩)
        · refine .inr ⟨_, closed, bind_eq_error_iff.mpr (.inl ?_)⟩
          exact (next _ closed).1.mpr ⟨⟨_, rfl⟩, meets⟩
        · refine .inr ⟨_, closed, bind_eq_error_iff.mpr (.inr ⟨_, subtracted, ?_⟩)⟩
          exact bind_eq_error_iff.mpr (.inl ((follows _ _ closed subtracted).mpr clashes))

/-- Without lower coefficients nothing is multiplied out. -/
theorem not_clashes_nil (steps : Nat) : ¬ Clashes lead [] steps row := by
  intro clashes
  generalize nil : ([] : Coefficients) = lower at clashes
  induction clashes with
  | here _ _ meets =>
    subst nil
    contradiction
  | later _ _ _ ih => exact ih

/-- Decimals and integers only clash where they are divided by an integer other than one and minus
one. -/
theorem lead_of_clashes {steps : Nat} (clashes : Clashes lead lower steps row) (leads : lead.Mixes)
    (divisor : ∀ d ∈ lower, d.Mixes) (entries : ∀ c ∈ row, c.Mixes) :
    ∃ n, lead = .int n ∧ n.natAbs ≠ 1 := by
  by_contra! whole
  have closes : ∀ c, c.Mixes → Yields Mixes (closeColumn lead c) := by
    intro c entry
    have divided : Yields Mixes (c.quo lead) := by
      by_cases decimal : c.isDecimal = true ∨ lead.isDecimal = true
      · exact (givesMixes_quo_of_isDecimal entry leads decimal).2
      · rcases entry.cases with ⟨m, rfl⟩ | ⟨d, rfl⟩ <;> rcases leads.cases with ⟨n, rfl⟩ | ⟨e, rfl⟩
        · exact mixes_quo_of_natAbs_eq_one m (whole n rfl)
        all_goals simp [isDecimal] at decimal
    simp only [closeColumn, yields_bind_iff]
    intro isOne _
    cases isOne <;> simp [divided, entry]
  induction clashes with
  | here _ closed _ =>
    rw [List.forall_mem_cons] at entries
    exact (closes _ entries.1 _ closed).elim
  | later closed subtracted _ ih =>
    rw [List.forall_mem_cons] at entries
    exact ih ((subtractMultiple_forall entries.2 fun d divides c entry =>
      givesMixes_column (closes _ entries.1 _ closed) (divisor d divides) (entries.2 c entry)).2 _
      subtracted)

end Row

/-! ## Division -/

section Divide

variable {dividend divisor lower : Coefficients} {lead : Value}

theorem supported_divideBy (leads : lead.PlainNumber) (lowers : ∀ d ∈ lower, d.PlainNumber)
    (entries : ∀ c ∈ dividend, c.PlainNumber) : Supported (divideBy dividend lead lower) := by
  unfold divideBy
  split
  next => simp
  next =>
    split
    next =>
      simp only [faultsIn_bind_iff, pure_eq_ok, faultsIn_ok, implies_true, and_true]
      exact .mapM fun c entry => (quo_plain (entries c entry) leads).1
    next => exact supported_divideRow leads lowers entries _

theorem divideBy_unsupported_iff (leads : lead.Mixes) (lowers : ∀ d ∈ lower, d.Mixes)
    (entries : ∀ c ∈ dividend, c.Mixes) : divideBy dividend lead lower = .error .unsupported ↔
      Clashes lead lower (dividend.length - lower.length) dividend := by
  unfold divideBy
  split
  next short =>
    rw [Nat.sub_eq_zero_of_le short]
    exact ⟨nofun, nofun⟩
  next long =>
    split
    next constant =>
      obtain rfl := List.isEmpty_iff.mp constant
      refine ⟨fun refused => ?_, fun clashes => (not_clashes_nil _ clashes).elim⟩
      have supported : Supported (dividend.mapM (·.quo lead)) :=
        .mapM fun c entry => (quo_mixes (entries c entry) leads).1
      rcases bind_eq_error_iff.mp refused with refused | ⟨_, _, done⟩
      · exact absurd rfl (supported _ refused)
      · contradiction
    next => exact divideRow_unsupported_iff leads lowers (.mixes entries) (by omega)

/-- Stripping takes away the zeros in front, and what is left is led by none. -/
theorem stripZeros_spec {cs stripped : Coefficients} (strips : cs.stripZeros = .ok stripped) :
    (∃ zeros, cs = zeros ++ stripped ∧ ∀ c ∈ zeros, c.isZero = .ok true) ∧
      ∀ lead ∈ stripped.head?, lead.isZero = .ok false := by
  induction cs with
  | nil =>
    cases strips
    simp
  | cons c cs ih =>
    rcases bind_eq_ok_iff.mp strips with ⟨zero, checked, strips⟩
    split at strips
    next vanishes =>
      rcases ih strips with ⟨⟨zeros, rfl, all⟩, leads⟩
      rw [vanishes] at checked
      exact ⟨⟨c :: zeros, rfl, List.forall_mem_cons.mpr ⟨checked, all⟩⟩, leads⟩
    next nonzero =>
      cases strips
      constructor
      · exact ⟨[], rfl, nofun⟩
      · rintro lead ⟨⟩
        rw [checked, Bool.eq_false_iff.mpr nonzero]

theorem mem_of_stripZeros {cs stripped : Coefficients} (strips : cs.stripZeros = .ok stripped) :
    ∀ c ∈ stripped, c ∈ cs := by
  rcases stripZeros_spec strips with ⟨⟨zeros, rfl, -⟩, -⟩
  exact fun c member => List.mem_append_right zeros member

theorem supported_stripZeros (cs : Coefficients) : Supported cs.stripZeros := by
  induction cs with
  | nil => simp [stripZeros]
  | cons c cs ih =>
    simp only [stripZeros, faultsIn_bind_iff, supported_isZero, true_and]
    intro zero _
    split <;> simp [ih]

theorem isNumber_of_simplest {cs : Coefficients} (numbers : ∀ c ∈ cs, c.isNumber = true) :
    ∀ v ∈ cs.simplest, v.isNumber = true := by
  intro v member
  rcases List.mem_map.mp member with ⟨c, entry, rfl⟩
  exact isNumber_simplify (numbers c entry)

/-- Entries that do not all mix with decimals are divided without any. -/
theorem supported_divide_of_not_mixes {stripped : Coefficients}
    (strips : divisor.simplest.stripZeros = .ok stripped)
    (numbers : ∀ v ∈ dividend.simplest ++ stripped, v.isNumber = true)
    (other : ¬ ∀ v ∈ dividend.simplest ++ stripped, v.Mixes) :
    Supported (divide dividend divisor) := by
  rcases coerceDecimals_of_not_mixes numbers other with ⟨supported, plain⟩
  simp only [divide, strips, ok_bind, faultsIn_bind_iff, supported, true_and]
  intro mixed coerced
  have plain := plain mixed coerced
  split
  next => simp
  next lead lower split =>
    have divides : ∀ d ∈ lead :: lower, d.PlainNumber := by
      rw [← split]
      exact fun d member => plain d (List.mem_of_mem_drop member)
    rw [List.forall_mem_cons] at divides
    exact supported_divideBy divides.1 divides.2 fun c member =>
      plain c (List.mem_of_mem_take member)

/-- Numbers are divided unless the entries are decimals and integers and the quotient of two
integers is a fraction that meets a decimal.  Then the divisor is led by an integer that is not one
or minus one. -/
theorem divide_unsupported_iff (numbers : ∀ v ∈ dividend ++ divisor, v.isNumber = true) :
    (divide dividend divisor = .error .unsupported ↔ ∃ lead lower,
      divisor.simplest.stripZeros = .ok (lead :: lower) ∧
      (∀ v ∈ dividend.simplest ++ lead :: lower, v.Mixes) ∧
      Clashes lead lower (dividend.length - lower.length) dividend.simplest) ∧
    (divide dividend divisor = .error .unsupported → ∃ n lower,
      divisor.simplest.stripZeros = .ok (.int n :: lower) ∧ n.natAbs ≠ 1) := by
  have refused_iff : divide dividend divisor = .error .unsupported ↔ ∃ lead lower,
      divisor.simplest.stripZeros = .ok (lead :: lower) ∧
      (∀ v ∈ dividend.simplest ++ lead :: lower, v.Mixes) ∧
      Clashes lead lower (dividend.length - lower.length) dividend.simplest := by
    cases strips : divisor.simplest.stripZeros with
    | error fault =>
      have other := supported_stripZeros _ fault strips
      simp [divide, strips, other]
    | ok stripped =>
      have entries : ∀ v ∈ dividend.simplest ++ stripped, v.isNumber = true := by
        rw [List.forall_mem_append] at numbers ⊢
        exact ⟨isNumber_of_simplest numbers.1, fun v member =>
          isNumber_of_simplest numbers.2 v (mem_of_stripZeros strips v member)⟩
      by_cases mixes : ∀ v ∈ dividend.simplest ++ stripped, v.Mixes
      · have length : dividend.simplest.length = dividend.length := List.length_map ..
        rw [divide, strips, ok_bind, coerceDecimals_of_mixes mixes, ok_bind, List.drop_left,
          List.take_left]
        cases stripped with
        | nil => simp
        | cons lead lower =>
          have parts := mixes
          rw [List.forall_mem_append, List.forall_mem_cons] at parts
          rw [divideBy_unsupported_iff parts.2.1 parts.2.2 parts.1, length]
          constructor
          · exact fun clashes => ⟨lead, lower, rfl, mixes, clashes⟩
          · rintro ⟨lead, lower, same, -, clashes⟩
            cases same
            exact clashes
      · constructor
        · exact fun refused => absurd rfl (supported_divide_of_not_mixes strips entries mixes _ refused)
        · rintro ⟨lead, lower, same, mixes', -⟩
          cases same
          exact absurd mixes' mixes
  refine ⟨refused_iff, fun refused => ?_⟩
  rcases refused_iff.mp refused with ⟨lead, lower, strips, mixes, clashes⟩
  rw [List.forall_mem_append, List.forall_mem_cons] at mixes
  rcases lead_of_clashes clashes mixes.2.1 mixes.2.2 mixes.1 with ⟨n, rfl, whole⟩
  exact ⟨n, lower, strips, whole⟩

/-- The quotient of x + 1.5 by 2x + 1 is a half, which meets the decimal. -/
theorem divide_unsupported_iff_half :
    let dividend : Coefficients := [.int 1, .decimal (.finite false 15 (-1))]
    let divisor : Coefficients := [.int 2, .int 1]
    (∀ v ∈ dividend ++ divisor, v.isNumber = true) ∧
      divide dividend divisor = .error .unsupported ∧ Clashes (.int 2) [.int 1] 1 dividend := by
  intro dividend divisor
  have numbers : ∀ v ∈ dividend ++ divisor, v.isNumber = true := by decide
  have refused : divide dividend divisor = .error .unsupported :=
    fault?_eq_some_iff.mp (by decide +kernel)
  rcases (divide_unsupported_iff numbers).1.mp refused with ⟨lead, lower, strips, -, clashes⟩
  have stripped : divisor.simplest.stripZeros = .ok [.int 2, .int 1] :=
    toOption_eq_some_iff.mp (by decide)
  rw [stripped] at strips
  cases strips
  exact ⟨numbers, refused, clashes⟩

/-- A half meets the decimal that it is added to. -/
theorem divide_fraction_beside_decimal :
    divide [.int 1, .decimal (.finite false 15 (-1))] [.int 2, .int 1] = .error .unsupported :=
  fault?_eq_some_iff.mp (by decide +kernel)

end Divide

end ExactRoots.Coefficients
