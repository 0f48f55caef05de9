import ExactRoots.Proofs.Expression.Tree
import ExactRoots.Proofs.Report.Number

/-!
# Written numbers are read back

The text of an exact number has no blanks at its ends, its tokens are those of a
ratio, a multiple of the imaginary unit, or a sum of the two, and what they amount to
is the number again.
-/

namespace ExactRoots

open Outcome
open Nat (toDigits)

namespace Report

open Expression (EndsNumber Lexes Unmarked)

/-! ## Characters -/

/-- Whether a text is made of digits, signs and slashes. -/
def Numeric (cs : List Char) : Prop := ∀ c ∈ cs, c.isDigit = true ∨ c ∈ ['+', '-', '/']

namespace Numeric

variable {cs ds : List Char}

theorem append (first : Numeric cs) (second : Numeric ds) : Numeric (cs ++ ds) := by
  intro c member
  rcases List.mem_append.mp member with member | member
  · exact first c member
  · exact second c member

theorem toDigits (n : Nat) : Numeric (Nat.toDigits 10 n) :=
  fun _ member => .inl (Expression.isDigit_of_mem_toDigits member)

theorem signText (negative : Bool) : Numeric (signText negative) := by
  cases negative <;> simp [Numeric, Report.signText]

theorem ratioText (n : Nat) (d : Option Nat) : Numeric (ratioText n d) := by
  cases d with
  | none => simpa [Report.ratioText] using toDigits n
  | some k =>
    have slash : Numeric ['/'] := by simp [Numeric]
    simpa [Report.ratioText] using (toDigits n).append (slash.append (toDigits k))

theorem rationalText (q : Rat) : Numeric (rationalText q) :=
  (signText _).append (ratioText _ _)

theorem factorText (q : Rat) : Numeric (factorText q) := by
  rw [Report.factorText]
  cases factor? q with
  | none => simp [Numeric]
  | some size => exact ratioText size.1 size.2

theorem unmarked (numeric : Numeric cs) : Unmarked cs := by
  intro c member
  rcases numeric c member with digit | sign
  · refine ⟨Expression.not_isLetter_of_isDigit digit, ?_⟩
    rintro rfl
    contradiction
  · simp only [List.mem_cons, List.not_mem_nil, or_false] at sign
    rcases sign with rfl | rfl | rfl <;> decide

theorem unblank (numeric : Numeric cs) {c : Char} (member : c ∈ cs) :
    Numeral.isBlank c = false := by
  rcases numeric c member with digit | sign
  · simp [Char.isDigit, UInt32.le_iff_toNat_le] at digit
    have other : c ≠ ' ' := by
      rintro rfl
      contradiction
    simp [Numeral.isBlank, other]
    omega
  · simp only [List.mem_cons, List.not_mem_nil, or_false] at sign
    rcases sign with rfl | rfl | rfl <;> rfl

end Numeric

/-- A text without blanks at its ends is not trimmed. -/
theorem trim_eq_self {cs : List Char} (first : ∀ c ∈ cs.head?, Numeral.isBlank c = false)
    (last : ∀ c ∈ cs.getLast?, Numeral.isBlank c = false) : Numeral.trim cs = cs := by
  have kept : ∀ ds : List Char, (∀ c ∈ ds.head?, Numeral.isBlank c = false) →
      ds.dropWhile Numeral.isBlank = ds := by
    rintro (_ | ⟨c, ds⟩) head
    · rfl
    · exact List.dropWhile_cons_of_neg (by simp [head c rfl])
  rw [Numeral.trim, kept cs first, kept _ (by rwa [List.head?_reverse]), List.reverse_reverse]

theorem trim_unit {cs : List Char} (first : ∀ c ∈ (cs ++ ['i']).head?, Numeral.isBlank c = false) :
    Numeral.trim (cs ++ ['i']) = cs ++ ['i'] := by
  apply trim_eq_self first
  intro c last
  rw [List.getLast?_concat] at last
  cases last
  rfl

theorem ratioText_ne_nil (n : Nat) (d : Option Nat) : ratioText n d ≠ [] :=
  List.append_ne_nil_of_left_ne_nil Nat.toDigits_ne_nil _

theorem rationalText_ne_nil (q : Rat) : rationalText q ≠ [] :=
  List.append_ne_nil_of_right_ne_nil _ (ratioText_ne_nil _ _)

theorem Numeric.trim {cs : List Char} (numeric : Numeric cs) : Numeral.trim cs = cs :=
  trim_eq_self (fun _ head => numeric.unblank (List.mem_of_mem_head? head))
    fun _ last => numeric.unblank (List.mem_of_mem_getLast? last)

/-- The text of a number has no blanks at its ends. -/
theorem trim_numberText (u : Gaussian) : Numeral.trim (numberText u) = numberText u := by
  have real := Numeric.rationalText u.re
  rw [numberText]
  split
  next => exact real.trim
  next =>
    split
    next =>
      have factor := (Numeric.signText (u.im < 0)).append (Numeric.factorText u.im)
      apply trim_unit
      intro c head
      rcases List.mem_append.mp (List.mem_of_mem_head? head) with inside | last
      · exact factor.unblank inside
      · cases List.mem_singleton.mp last
        rfl
    next =>
      apply trim_unit
      intro c head
      rw [List.append_assoc, List.append_assoc,
        List.head?_append_of_ne_nil _ (rationalText_ne_nil u.re)] at head
      exact real.unblank (List.mem_of_mem_head? head)

/-! ## Reading -/

/-- The tokens of a Gaussian rational. -/
def numberTokens (u : Gaussian) : List Expression.Token :=
  let real := Expression.signTokens (u.re < 0) ++
    Expression.ratioTokens u.re.num.natAbs (denominator? u.re)
  let unit := Expression.unitTokens (factor? u.im)
  if u.im = 0 then real
  else if u.re = 0 then Expression.signTokens (u.im < 0) ++ unit
  else real ++ (if u.im < 0 then .minus else .plus) :: unit

/-- The tree of a Gaussian rational. -/
def numberTree (u : Gaussian) : Expression.Tree :=
  let real := Expression.ratioTree (u.re < 0) u.re.num.natAbs (denominator? u.re)
  if u.im = 0 then real
  else if u.re = 0 then Expression.unitTree (u.im < 0) (factor? u.im)
  else
    (if u.im < 0 then Expression.Tree.sub else .add) real
      (Expression.unitTree false (factor? u.im))

theorem ofTokens?_numberTokens (u : Gaussian) :
    Expression.Tree.ofTokens? (numberTokens u) = some (numberTree u) := by
  rw [numberTokens, numberTree]
  split
  next => exact Expression.ofTokens?_ratio _ _ _
  next =>
    split
    next => exact Expression.ofTokens?_unit _ _
    next =>
      have parsed := Expression.ofTokens?_sum (u.re < 0) (u.im < 0) u.re.num.natAbs
        (denominator? u.re) (factor? u.im)
      simpa only [decide_eq_true_eq] using parsed

section Tokens

variable {q : Rat} {cs : List Char} {ts : List Expression.Token}

theorem endsNumber_nil : EndsNumber [] := by simp [EndsNumber]

theorem endsNumber_cons {c : Char} (other : c ∈ ['I', ' ', '/']) : EndsNumber (c :: cs) := by
  simp only [List.mem_cons, List.not_mem_nil, or_false] at other
  rcases other with rfl | rfl | rfl <;> simp [EndsNumber, Expression.base?]

theorem lexes_sign (negative : Bool) (rest : Lexes cs ts) :
    Lexes (signText negative ++ cs) (Expression.signTokens negative ++ ts) := by
  cases negative with
  | false => exact rest
  | true => exact rest.operator (by simp) rfl

theorem lexes_ratio {n : Nat} {d : Option Nat} (num : Short n) (den : ∀ k ∈ d, Short k)
    (ends : EndsNumber cs) (rest : Lexes cs ts) :
    Lexes (ratioText n d ++ cs) (Expression.ratioTokens n d ++ ts) := by
  cases d with
  | none =>
    have whole := Lexes.whole num ends rest
    simpa [ratioText, Expression.ratioTokens] using whole
  | some k =>
    have quotient := (Lexes.whole (den k rfl) ends rest).operator (c := '/') (by simp) rfl
    have whole := Lexes.whole num (endsNumber_cons (by simp)) quotient
    simpa [ratioText, Expression.ratioTokens] using whole

theorem short_of_mem_denominator? (writable : Writable q) : ∀ k ∈ denominator? q, Short k := by
  intro k present
  rw [denominator?] at present
  split at present <;> cases present
  exact writable.den

theorem lexes_rational (writable : Writable q) (ends : EndsNumber cs) (rest : Lexes cs ts) :
    Lexes (rationalText q ++ cs) (Expression.signTokens (q < 0) ++
      Expression.ratioTokens q.num.natAbs (denominator? q) ++ ts) := by
  rw [rationalText, List.append_assoc, List.append_assoc]
  exact lexes_sign _ (lexes_ratio writable.num (short_of_mem_denominator? writable) ends rest)

theorem lexes_unit (writable : Writable q) :
    Lexes (factorText q ++ ['I']) (Expression.unitTokens (factor? q)) := by
  rw [factorText, Expression.unitTokens, factor?]
  split
  next => exact Lexes.unit
  next =>
    exact lexes_ratio writable.num (short_of_mem_denominator? writable) (endsNumber_cons (by simp))
      Lexes.unit

end Tokens

/-- The tokens of a written number. -/
theorem tokens?_numberText {u : Gaussian} (re : Writable u.re) (im : Writable u.im) :
    Expression.tokens? (Expression.marked (numberText u)) = some (numberTokens u) := by
  have real := Numeric.rationalText u.re
  have factor := Numeric.factorText u.im
  rw [numberText, numberTokens]
  split
  next =>
    apply Expression.tokens?_of_lexes real.unmarked
    simpa using lexes_rational re endsNumber_nil Lexes.nil
  next =>
    split
    next =>
      apply Expression.tokens?_unit ((Numeric.signText _).append factor).unmarked
      rw [List.append_assoc]
      exact lexes_sign _ (lexes_unit im)
    next =>
      have operated : Lexes
          ([' ', if u.im < 0 then '-' else '+', ' '] ++ (factorText u.im ++ ['I']))
          ((if u.im < 0 then .minus else .plus) :: Expression.unitTokens (factor? u.im)) := by
        apply Lexes.blank
        apply Lexes.operator
        · split <;> simp
        · split <;> rfl
        · exact Lexes.blank (lexes_unit im)
      have operator : Unmarked [' ', if u.im < 0 then '-' else '+', ' '] := by
        by_cases negative : u.im < 0 <;> simp [negative, Unmarked, Expression.isLetter]
      apply Expression.tokens?_unit
      · exact (real.unmarked.append operator).append factor.unmarked
      · rw [List.append_assoc, List.append_assoc]
        exact lexes_rational re (endsNumber_cons (by simp)) operated

/-! ### Values -/

theorem den_of_mem_denominator? {q : Rat} {d : Nat} (present : d ∈ denominator? q) : 0 < d := by
  rw [denominator?] at present
  split at present
  next => cases present
  next =>
    cases present
    exact q.pos

theorem denominator?_getD (q : Rat) : (denominator? q).getD 1 = q.den := by
  rw [denominator?]
  split
  next whole => exact whole.symm
  next => rfl

/-- What is written of a rational without its sign is its absolute value. -/
theorem ratio_eq_abs (negative : Bool) (q : Rat) :
    Expression.ratio negative q.num.natAbs (denominator? q) = if negative then -|q| else |q| := by
  rw [Expression.ratio, denominator?_getD, Rat.abs_def, Rat.divInt_eq_div]
  cases negative <;> simp [neg_div]

theorem signed_abs (q : Rat) : (if decide (q < 0) = true then -|q| else |q|) = q := by
  by_cases negative : q < 0
  · simp [negative, abs_of_neg negative]
  · simp [negative, abs_of_nonneg (not_lt.mp negative)]

theorem ratio_eq (q : Rat) : Expression.ratio (q < 0) q.num.natAbs (denominator? q) = q := by
  rw [ratio_eq_abs, signed_abs]

theorem factor_eq_abs (negative : Bool) (q : Rat) :
    Expression.factor negative (factor? q) = if negative then -|q| else |q| := by
  rw [factor?]
  split
  next one => rw [one, Expression.factor, Option.elim_none]
  next => exact ratio_eq_abs negative q

theorem factor_eq (q : Rat) : Expression.factor (q < 0) (factor? q) = q := by
  rw [factor_eq_abs, signed_abs]

theorem den_of_mem_factor? {q : Rat} {size : Nat × Option Nat} (present : size ∈ factor? q) :
    ∀ d ∈ size.2, 0 < d := by
  rw [factor?] at present
  split at present
  next => cases present
  next =>
    cases present
    exact fun _ => den_of_mem_denominator?

/-- The tree of a number amounts to that number. -/
theorem eval?_numberTree (u : Gaussian) : (numberTree u).eval? = some (.ofGaussian u) := by
  have re := ratio_eq u.re
  have im := factor_eq u.im
  rw [numberTree]
  split
  next real =>
    rw [Expression.eval?_ratio _ _ fun _ => den_of_mem_denominator?, re,
      Formal.rational_eq_ofGaussian]
    exact congrArg (some ∘ Formal.ofGaussian) (Gaussian.ext rfl real.symm)
  next nonreal =>
    split
    next zero =>
      rw [Expression.eval?_unit _ (fun _ => den_of_mem_factor?) (by rwa [im]), im,
        Formal.imaginary_eq_ofGaussian nonreal]
      exact congrArg (some ∘ Formal.ofGaussian) (Gaussian.ext zero.symm rfl)
    next nonzero =>
      have sum := Expression.eval?_sum (u.re < 0) (u.im < 0) u.re.num.natAbs
        (fun _ => den_of_mem_denominator? (q := u.re)) (fun _ => den_of_mem_factor? (q := u.im))
        (by rwa [re]) (by simpa [factor_eq_abs] using nonreal)
      have size : Expression.factor false (factor? u.im) = |u.im| := factor_eq_abs false u.im
      rw [re, size, signed_abs] at sum
      simpa only [decide_eq_true_eq] using sum

theorem numberText_ne_nil (u : Gaussian) : numberText u ≠ [] := by
  rw [numberText]
  split
  next => exact rationalText_ne_nil u.re
  next => split <;> simp

theorem valueOfParts_ofRat (p q : Rat) :
    Expression.valueOfParts (.ofRat p) (.ofRat q) = .ok (Value.ofGaussian ⟨p, q⟩) := by
  rw [Expression.valueOfParts]
  by_cases real : q = 0
  · subst real
    rfl
  · simp [Expression.Part.ofRat, real]

/-- What a text is read as, from its tokens, their tree, and what that amounts to. -/
theorem readCoefficient_of_tokens {text : String} {cs : List Char} {ts : List Expression.Token}
    {tree : Expression.Tree} {u : Gaussian} (trimmed : Numeral.trim text.toList = cs)
    (filled : cs ≠ []) (lexed : Expression.tokens? (Expression.marked cs) = some ts)
    (parsed : Expression.Tree.ofTokens? ts = some tree)
    (evaluated : tree.eval? = some (.ofGaussian u)) :
    readCoefficient Expression.parse text = .ok (Value.ofGaussian u) := by
  have filled' : cs.isEmpty = false := by simp [filled]
  have number : Expression.parse (String.ofList (Expression.marked cs)) =
      .number (.ok (.ofRat u.re, .ofRat u.im)) := by
    simp only [Expression.parse, String.toList_ofList, lexed, Option.bind_some, parsed, evaluated,
      Formal.hasLetters_ofGaussian, Bool.false_eq_true, if_false, Formal.number_ofGaussian]
    rfl
  simp only [readCoefficient, trimmed, filled', Bool.false_eq_true, if_false, number, ok_bind,
    valueOfParts_ofRat]

/-- A ratio need not be in lowest terms to be read, and may have a sign. -/
theorem readCoefficient_ratioText {text : String} {sign : List Char} {n : Nat} {d : Option Nat}
    (signed : sign ∈ [[], ['+'], ['-']])
    (spelled : Numeral.trim text.toList = sign ++ ratioText n d) (num : Short n)
    (den : ∀ k ∈ d, Short k) (positive : ∀ k ∈ d, 0 < k) :
    readCoefficient Expression.parse text =
      .ok (.ofRat (Expression.ratio (sign = ['-']) n d)) := by
  have filled : sign ++ ratioText n d ≠ [] :=
    List.append_ne_nil_of_right_ne_nil _ (ratioText_ne_nil n d)
  have ratio : Lexes (ratioText n d) (Expression.ratioTokens n d) := by
    simpa using lexes_ratio num den endsNumber_nil Lexes.nil
  have evaluated := fun negative => Expression.eval?_ratio negative n positive
  rw [← Value.ofGaussian_ofRat]
  simp only [List.mem_cons, List.not_mem_nil, or_false] at signed
  rcases signed with rfl | rfl | rfl
  · exact readCoefficient_of_tokens spelled filled
      (Expression.tokens?_of_lexes (Numeric.ratioText n d).unmarked ratio)
      (Expression.ofTokens?_ratio false n d) (evaluated false)
  · have numeric : Numeric ['+'] := by simp [Numeric]
    exact readCoefficient_of_tokens spelled filled
      (Expression.tokens?_of_lexes (numeric.append (Numeric.ratioText n d)).unmarked
        (ratio.operator (by simp) rfl))
      (Expression.ofTokens?_plus_ratio n d) (evaluated false)
  · exact readCoefficient_of_tokens spelled filled
      (Expression.tokens?_of_lexes
        ((Numeric.signText true).append (Numeric.ratioText n d)).unmarked (lexes_sign true ratio))
      (Expression.ofTokens?_ratio true n d) (evaluated true)

/-- The text of a number is read as the simplest value of that number. -/
theorem readCoefficient_numberText {u : Gaussian} (re : Writable u.re) (im : Writable u.im) :
    readCoefficient Expression.parse (String.ofList (numberText u)) = .ok (Value.ofGaussian u) :=
  readCoefficient_of_tokens (by rw [String.toList_ofList, trim_numberText]) (numberText_ne_nil u)
    (tokens?_numberText re im) (ofTokens?_numberTokens u) (eval?_numberTree u)

/-- An exact number that is written is read as its simplest value. -/
theorem readCoefficient_writeNumber {v : Value} (exact : v.IsGaussian)
    (re : Writable v.number.re) (im : Writable v.number.im) :
    (writeNumber v >>= readCoefficient Expression.parse) = .ok v.simplest := by
  have denoted := exact.gaussian?_eq
  rw [writeNumber_of_writable denoted re im, ok_bind, readCoefficient_numberText re im,
    Value.simplest_of_gaussian? denoted]

/-- A fraction of the unit taken from a fraction. -/
theorem readCoefficient_writeNumber_fifths :
    let v := Value.exact (3 / 5) (-4 / 5) (by decide +kernel)
    v.IsGaussian ∧ Writable v.number.re ∧ Writable v.number.im ∧
      writeNumber v = .ok "3/5 - 4/5i" ∧
        (writeNumber v >>= readCoefficient Expression.parse) = .ok v := by
  intro v
  have exact : v.IsGaussian := rfl
  have re : Writable v.number.re := ⟨by decide +kernel, by decide +kernel⟩
  have im : Writable v.number.im := ⟨by decide +kernel, by decide +kernel⟩
  have written : (writeNumber v).toOption = some "3/5 - 4/5i" := by decide +kernel
  exact ⟨exact, re, im, toOption_eq_some_iff.mp written, readCoefficient_writeNumber exact re im⟩

end Report

end ExactRoots
