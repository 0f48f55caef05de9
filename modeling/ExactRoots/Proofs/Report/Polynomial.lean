import ExactRoots.Proofs.Coefficients.Polynomial
import ExactRoots.Proofs.Report.Reading

/-!
# Written polynomials

The text of a polynomial with exact coefficients can be taken apart again.  Blanks
stand between its terms only and inside parentheses, the variable stands between the
coefficient of a term and its power, and the text of a coefficient is read back.  Two
texts are the same just when they are made of the same terms.
-/

namespace ExactRoots

open Outcome
open Nat (toDigits)

namespace Report

/-! ## Texts -/

/-- A text with blanks is put in parentheses. -/
def enclose (text : List Char) : List Char :=
  if ' ' ∈ text then '(' :: (text ++ [')']) else text

/-- A factor one is left out. -/
def shorten (text : List Char) : List Char :=
  if text = ['1'] then [] else if text = ['-', '1'] then ['-'] else text

/-- The text of a coefficient before a power. -/
def coefficientText (u : Gaussian) (power : Nat) : List Char :=
  if 0 < power then shorten (enclose (numberText u)) else enclose (numberText u)

/-- The text of a coefficient with its power. -/
def termText (term : Gaussian × Nat) : List Char :=
  coefficientText term.1 term.2 ++ (writePower term.2).toList

/-- A term behind a sum, with the sign between them. -/
def linkText (text : List Char) : List Char :=
  match text with
  | '-' :: rest => ' ' :: '-' :: ' ' :: rest
  | text => ' ' :: '+' :: ' ' :: text

/-- The coefficients that are not zero, with their powers. -/
def terms : List Gaussian → List (Gaussian × Nat)
  | [] => []
  | u :: us => if u = 0 then terms us else (u, us.length) :: terms us

/-- The terms behind the first one. -/
def linksText (others : List (Gaussian × Nat)) : List Char :=
  (others.map fun term => linkText (termText term)).flatten

/-- The text of a sum with a first term. -/
def sumText (first : Gaussian × Nat) (others : List (Gaussian × Nat)) : List Char :=
  termText first ++ linksText others

/-- The text of a polynomial; zero is written when there are no terms. -/
def polynomialText (us : List Gaussian) : List Char :=
  match terms us with
  | [] => sumText (0, 0) []
  | first :: others => sumText first others

/-! ## Writing -/

section Writing

variable {c : Value} {u : Gaussian}

theorem writeTerm_of_writable (denoted : c.gaussian? = some u) (re : Writable u.re)
    (im : Writable u.im) (power : Nat) :
    writeTerm c power = .ok (String.ofList (termText (u, power))) := by
  have enclosed : (if (String.ofList (numberText u)).contains ' ' then
      "(" ++ String.ofList (numberText u) ++ ")" else String.ofList (numberText u)) =
      String.ofList (enclose (numberText u)) := by
    rw [String.contains_char_eq, String.toList_ofList, ← String.toList_inj, enclose]
    by_cases blank : ' ' ∈ numberText u <;> simp [blank]
  have one : String.ofList (enclose (numberText u)) = "1" ↔ enclose (numberText u) = ['1'] := by
    simp [← String.toList_inj]
  have minusOne : String.ofList (enclose (numberText u)) = "-1" ↔
      enclose (numberText u) = ['-', '1'] := by
    simp [← String.toList_inj]
  rw [writeTerm, writeNumber_of_writable denoted re im, ok_bind, enclosed]
  simp only [one, minusOne, termText, coefficientText, shorten, pure_eq_ok, Except.ok.injEq,
    ← String.toList_inj]
  by_cases higher : 0 < power
  · by_cases unit : enclose (numberText u) = ['1']
    · simp [higher, unit]
    · by_cases minus : enclose (numberText u) = ['-', '1'] <;> simp [higher, unit, minus]
  · simp [higher]

end Writing

theorem toList_joinTerm (sum term : String) :
    (joinTerm sum term).toList = sum.toList ++ linkText term.toList := by
  unfold joinTerm
  split
  next rest negative => simp [negative, linkText]
  next unsigned => simp [linkText]

theorem toList_foldl_joinTerm (sum : String) (texts : List String) :
    (texts.foldl joinTerm sum).toList =
      sum.toList ++ (texts.map fun text => linkText text.toList).flatten := by
  induction texts generalizing sum with
  | nil => simp
  | cons text texts ih => simp [ih, toList_joinTerm]

section List

variable {cs : Coefficients}

theorem writeTerms_of_writable (exact : cs.AllGaussian)
    (writable : ∀ u ∈ cs.numbers, Writable u.re ∧ Writable u.im) :
    writeTerms cs = .ok ((terms cs.numbers).map fun term => String.ofList (termText term)) := by
  induction cs with
  | nil => rfl
  | cons c cs ih =>
    rw [Coefficients.AllGaussian, List.forall_mem_cons] at exact
    rw [Coefficients.numbers_cons, List.forall_mem_cons] at writable
    have denoted := exact.1.gaussian?_eq
    have rest := ih exact.2 writable.2
    have term := writeTerm_of_writable denoted writable.1.1 writable.1.2 cs.length
    rw [writeTerms, Value.isZero_of_gaussian? denoted, ok_bind, Coefficients.numbers_cons, terms]
    by_cases zero : c.number = 0
    · simpa [zero] using rest
    · simp [zero, term, rest]

/-- A polynomial whose coefficients can be written is written. -/
theorem writePolynomial_of_writable (exact : cs.AllGaussian)
    (writable : ∀ u ∈ cs.numbers, Writable u.re ∧ Writable u.im) :
    writePolynomial cs = .ok (String.ofList (polynomialText cs.numbers)) := by
  rw [writePolynomial, writeTerms_of_writable exact writable, ok_bind, polynomialText]
  cases terms cs.numbers with
  | nil =>
    have zero : sumText (0, 0) [] = ['0'] := by decide
    simp [zero]
  | cons first others =>
    simp [← String.toList_inj, toList_foldl_joinTerm, sumText, linksText, Function.comp_def]

end List

/-! ## Taking texts apart -/

/-- Two texts of characters that pass a test are the same when they are the same up to the first
character that does not. -/
theorem append_inj_of_stop {p : Char → Bool} {as bs cs ds : List Char} (left : ∀ c ∈ as, p c)
    (right : ∀ c ∈ bs, p c) (stopLeft : ∀ c ∈ cs.head?, p c = false)
    (stopRight : ∀ c ∈ ds.head?, p c = false) (same : as ++ cs = bs ++ ds) : as = bs ∧ cs = ds := by
  have stopped : ∀ es : List Char, (∀ c ∈ es.head?, p c = false) → es.takeWhile p = [] := by
    rintro (_ | ⟨c, es⟩) stop
    · rfl
    · simp [stop c rfl]
  have taken := congrArg (List.takeWhile p) same
  rw [List.takeWhile_append_of_pos left, List.takeWhile_append_of_pos right, stopped cs stopLeft,
    stopped ds stopRight, List.append_nil, List.append_nil] at taken
  subst taken
  exact ⟨rfl, List.append_cancel_left same⟩

/-! ### Coefficients -/

theorem mem_numberText {u : Gaussian} {c : Char} (member : c ∈ numberText u) :
    c.isDigit = true ∨ c ∈ ['-', '/', 'i', ' ', '+'] := by
  have numeric : ∀ {cs : List Char}, Numeric cs → c ∈ cs →
      c.isDigit = true ∨ c ∈ ['-', '/', 'i', ' ', '+'] := by
    intro cs numeric inside
    refine (numeric c inside).imp_right fun sign => ?_
    simp only [List.mem_cons, List.not_mem_nil, or_false] at sign
    rcases sign with rfl | rfl | rfl <;> simp
  have real := Numeric.rationalText u.re
  have imaginary := (Numeric.signText (u.im < 0)).append (Numeric.factorText u.im)
  have factor := Numeric.factorText u.im
  rw [numberText] at member
  split at member
  next => exact numeric real member
  next =>
    split at member
    next =>
      rcases List.mem_append.mp member with inside | unit
      · exact numeric imaginary inside
      · exact .inr (by simp_all)
    next =>
      simp only [List.mem_append] at member
      rcases member with ((inside | operator) | inside) | unit
      · exact numeric real inside
      · refine .inr ?_
        by_cases negative : u.im < 0 <;> simp_all <;> tauto
      · exact numeric factor inside
      · exact .inr (by simp_all)

/-- Parentheses and the variable do not occur in the text of a number. -/
theorem not_mem_numberText {c : Char} (other : c ∈ ['(', ')', 'x']) (u : Gaussian) :
    c ∉ numberText u := by
  intro member
  simp only [List.mem_cons, List.not_mem_nil, or_false] at other
  rcases mem_numberText member with digit | sign
  · rcases other with rfl | rfl | rfl <;> contradiction
  · rcases other with rfl | rfl | rfl <;> simp at sign

theorem numberText_injective {u v : Gaussian} (left : Writable u.re ∧ Writable u.im)
    (right : Writable v.re ∧ Writable v.im) (same : numberText u = numberText v) : u = v := by
  have first := readCoefficient_numberText left.1 left.2
  have second := readCoefficient_numberText right.1 right.2
  rw [same, second, Except.ok.injEq] at first
  rw [← Value.number_ofGaussian u, ← first, Value.number_ofGaussian]

/-- A sign is not the text of a number. -/
theorem numberText_ne_sign {u : Gaussian} (re : Writable u.re) (im : Writable u.im) :
    numberText u ≠ ['-'] := by
  intro sign
  have read := readCoefficient_numberText re im
  rw [sign] at read
  have refused : (readCoefficient Expression.parse "-").isOk = false := by decide
  exact absurd (isOk_iff.mpr ⟨_, read⟩) (by simpa using refused)

/-- Parentheses are told from a text that does not begin with one. -/
theorem enclose_injective {s t : List Char} (left : '(' ∉ s) (right : '(' ∉ t)
    (same : enclose s = enclose t) : s = t := by
  unfold enclose at same
  split at same
  next =>
    split at same
    next => exact List.append_cancel_right (List.cons_injective same)
    next => simp [← same] at right
  next =>
    split at same
    next =>
      subst same
      simp at left
    next => exact same

theorem enclose_eq_iff {s t : List Char} (unblank : ' ' ∉ t) (opens : '(' ∉ t) :
    enclose s = t ↔ s = t := by
  rw [enclose]
  split
  next blank =>
    refine iff_of_false ?_ ?_
    · rintro rfl
      simp at opens
    · rintro rfl
      exact unblank blank
  next => rfl

/-- A factor one that is left out is known from what is left. -/
theorem restore_shorten {t : List Char} (nonempty : t ≠ []) (unsigned : t ≠ ['-']) :
    (if shorten t ∈ [[], ['-']] then shorten t ++ ['1'] else shorten t) = t := by
  unfold shorten
  split
  next one => simp [one]
  next =>
    split
    next minus => simp [minus]
    next => simp [nonempty, unsigned]

theorem shorten_injective {s t : List Char} (left : s ≠ [] ∧ s ≠ ['-'])
    (right : t ≠ [] ∧ t ≠ ['-']) (same : shorten s = shorten t) : s = t := by
  rw [← restore_shorten left.1 left.2, same, restore_shorten right.1 right.2]

theorem coefficientText_injective {u v : Gaussian} {power : Nat}
    (left : Writable u.re ∧ Writable u.im) (right : Writable v.re ∧ Writable v.im)
    (same : coefficientText u power = coefficientText v power) : u = v := by
  have proper : ∀ {w : Gaussian}, Writable w.re ∧ Writable w.im →
      enclose (numberText w) ≠ [] ∧ enclose (numberText w) ≠ ['-'] := by
    intro w writable
    rw [Ne, Ne, enclose_eq_iff (t := []) (by simp) (by simp),
      enclose_eq_iff (t := ['-']) (by simp) (by simp)]
    exact ⟨numberText_ne_nil w, numberText_ne_sign writable.1 writable.2⟩
  have enclosed : enclose (numberText u) = enclose (numberText v) := by
    unfold coefficientText at same
    split at same
    · exact shorten_injective (proper left) (proper right) same
    · exact same
  exact numberText_injective left right (enclose_injective (not_mem_numberText (by simp) u)
    (not_mem_numberText (by simp) v) enclosed)

/-! ### Powers -/

/-- The decimal digits. -/
def digits : List Char := ['0', '1', '2', '3', '4', '5', '6', '7', '8', '9']

theorem mem_digits_of_isDigit {c : Char} (digit : c.isDigit = true) : c ∈ digits := by
  have bounds : 48 ≤ c.toNat ∧ c.toNat ≤ 57 := by
    simpa [Char.isDigit, UInt32.le_iff_toNat_le] using digit
  have named : ∀ n ∈ List.range' 48 10, Char.ofNat n ∈ digits := by decide
  have listed : c.toNat ∈ List.range' 48 10 := by
    rw [List.mem_range'_1]
    omega
  simpa using named c.toNat listed

theorem map_raisedDigit_injective {cs ds : List Char} (left : ∀ c ∈ cs, c ∈ digits)
    (right : ∀ d ∈ ds, d ∈ digits) (same : cs.map raisedDigit = ds.map raisedDigit) : cs = ds := by
  have injective : ∀ c ∈ digits, ∀ d ∈ digits, raisedDigit c = raisedDigit d → c = d := by
    simp [digits, raisedDigit]
  induction cs generalizing ds with
  | nil => simpa using same.symm
  | cons c cs ih =>
    cases ds with
    | nil => simp at same
    | cons d ds =>
      rw [List.forall_mem_cons] at left right
      rw [List.map_cons, List.map_cons, List.cons.injEq] at same
      rw [injective c left.1 d right.1 same.1, ih left.2 right.2 same.2]

@[simp]
theorem toList_writePower_zero : (writePower 0).toList = [] := rfl

@[simp]
theorem toList_writePower_one : (writePower 1).toList = ['x'] := by decide

@[simp]
theorem toList_writePower (power : Nat) :
    (writePower (power + 2)).toList = 'x' :: (toDigits 10 (power + 2)).map raisedDigit := by
  have spelled : toString (power + 2) = String.ofList (toDigits 10 (power + 2)) :=
    Nat.toString_eq_ofList_toDigits
  simp [writePower, spelled]

theorem writePower_injective {p q : Nat} (same : (writePower p).toList = (writePower q).toList) :
    p = q := by
  obtain _ | _ | p := p <;> obtain _ | _ | q := q
  case succ.succ.succ.succ =>
    rw [toList_writePower, toList_writePower] at same
    have decimal : ∀ n, ∀ c ∈ toDigits 10 n, c ∈ digits := fun n c member =>
      mem_digits_of_isDigit (Expression.isDigit_of_mem_toDigits member)
    have spelled := map_raisedDigit_injective (decimal _) (decimal _) (List.cons_injective same)
    rw [← Expression.digitsValue_toDigits (p + 2), spelled, Expression.digitsValue_toDigits]
  all_goals simp at same ⊢

/-- A power begins with the variable, unless it is the constant one. -/
theorem head?_writePower (power : Nat) : ∀ c ∈ (writePower power).toList.head?, c = 'x' := by
  obtain _ | _ | power := power <;> simp

theorem not_mem_writePower {c : Char} (other : c ∈ [' ', '(']) (power : Nat) :
    c ∉ (writePower power).toList := by
  have raised : ∀ d ∈ digits, raisedDigit d ∉ [' ', '('] := by
    simp [digits, raisedDigit]
  have variable_ : c ≠ 'x' := by
    rintro rfl
    simp at other
  obtain _ | _ | power := power
  · simp
  · simpa using variable_
  · rw [toList_writePower, List.mem_cons, List.mem_map, not_or]
    refine ⟨variable_, ?_⟩
    rintro ⟨d, member, rfl⟩
    exact raised d (mem_digits_of_isDigit (Expression.isDigit_of_mem_toDigits member)) other

/-! ### Terms -/

/-- Whether the parts of a coefficient can be written. -/
def WritableTerm (term : Gaussian × Nat) : Prop := Writable term.1.re ∧ Writable term.1.im

theorem mem_coefficientText {u : Gaussian} {power : Nat} {c : Char}
    (member : c ∈ coefficientText u power) : c = '-' ∨ c ∈ enclose (numberText u) := by
  unfold coefficientText shorten at member
  split at member
  next =>
    split at member
    next => simp at member
    next =>
      split at member
      next => exact .inl (List.mem_singleton.mp member)
      next => exact .inr member
  next => exact .inr member

theorem not_mem_coefficientText (u : Gaussian) (power : Nat) : 'x' ∉ coefficientText u power := by
  intro member
  rcases mem_coefficientText member with sign | inside
  · contradiction
  · unfold enclose at inside
    split at inside <;> simp [not_mem_numberText] at inside

/-- A term is known from its text. -/
theorem termText_injective {s t : Gaussian × Nat} (left : WritableTerm s) (right : WritableTerm t)
    (same : termText s = termText t) : s = t := by
  obtain ⟨u, p⟩ := s
  obtain ⟨v, q⟩ := t
  have free : ∀ w n, ∀ c ∈ coefficientText w n, (c != 'x') = true := by
    intro w n c member
    rw [bne_iff_ne]
    rintro rfl
    exact not_mem_coefficientText w n member
  have stop : ∀ n, ∀ c ∈ (writePower n).toList.head?, (c != 'x') = false := by
    intro n c head
    simp [head?_writePower n c head]
  rcases append_inj_of_stop (free u p) (free v q) (stop p) (stop q) same with ⟨coefficient, power⟩
  obtain rfl := writePower_injective power
  exact congrArg (·, p) (coefficientText_injective left right coefficient)

/-! ### Sums -/

/-- Whether the blanks of a text, if there are any, are in parentheses. -/
def Unbroken (text : List Char) : Prop :=
  ('(' ∉ text ∧ ' ' ∉ text) ∨
    ∃ inner rest, text = '(' :: (inner ++ ')' :: rest) ∧ ')' ∉ inner ∧ ' ' ∉ rest

/-- Two unbroken texts are the same when they are the same up to a blank after them. -/
theorem Unbroken.append_inj {as bs cs ds : List Char} (left : Unbroken as) (right : Unbroken bs)
    (stopLeft : ∀ c ∈ cs.head?, c = ' ') (stopRight : ∀ c ∈ ds.head?, c = ' ')
    (same : as ++ cs = bs ++ ds) : as = bs ∧ cs = ds := by
  have free : ∀ {c : Char} {es : List Char}, c ∉ es → ∀ e ∈ es, (e != c) = true := by
    intro c es absent e member
    rw [bne_iff_ne]
    rintro rfl
    exact absent member
  have stop : ∀ {es : List Char}, (∀ c ∈ es.head?, c = ' ') →
      ∀ c ∈ es.head?, (c != ' ') = false := by
    intro es blank c head
    simp [blank c head]
  -- A parenthesis at the front of one text only is at odds with the other text or with the blank.
  have mixed : ∀ {inner rest es fs gs : List Char}, '(' ∉ es → (∀ c ∈ fs.head?, c = ' ') →
      '(' :: (inner ++ ')' :: rest) ++ gs ≠ es ++ fs := by
    intro inner rest es fs gs opens blank meets
    cases es with
    | nil =>
      rw [List.nil_append] at meets
      exact absurd (blank '(' (by rw [← meets]; rfl)) (by decide)
    | cons e es =>
      obtain rfl : '(' = e := (List.cons.inj meets).1
      simp at opens
  rcases left with ⟨opens, unblank⟩ | ⟨inner, rest, rfl, closes, unblank⟩ <;>
    rcases right with ⟨opens', unblank'⟩ | ⟨inner', rest', rfl, closes', unblank'⟩
  · exact append_inj_of_stop (free unblank) (free unblank') (stop stopLeft) (stop stopRight) same
  · exact absurd same.symm (mixed opens stopLeft)
  · exact absurd same (mixed opens' stopRight)
  · have tails := List.cons_injective same
    have tails : inner ++ ')' :: (rest ++ cs) = inner' ++ ')' :: (rest' ++ ds) := by simpa using same
    rcases append_inj_of_stop (free closes) (free closes') (by simp) (by simp) tails with
      ⟨rfl, closed⟩
    rcases append_inj_of_stop (free unblank) (free unblank') (stop stopLeft) (stop stopRight)
      (List.cons_injective closed) with ⟨rfl, rfl⟩
    exact ⟨rfl, rfl⟩

theorem unbroken_termText (term : Gaussian × Nat) : Unbroken (termText term) := by
  obtain ⟨u, power⟩ := term
  by_cases blank : ' ' ∈ numberText u
  · have enclosed : coefficientText u power = '(' :: (numberText u ++ [')']) := by
      simp [coefficientText, shorten, enclose, blank]
    rw [termText, enclosed]
    exact .inr ⟨numberText u, _, by simp, not_mem_numberText (by simp) u,
      not_mem_writePower (by simp) power⟩
  · have absent : ∀ c ∈ [' ', '('], c ∉ numberText u → c ∉ termText (u, power) := by
      intro c listed other member
      rcases List.mem_append.mp member with inside | raised
      · rcases mem_coefficientText inside with rfl | inside
        · simp at listed
        · rw [enclose, if_neg blank] at inside
          exact other inside
      · exact not_mem_writePower listed power raised
    exact .inl ⟨absent '(' (by simp) (not_mem_numberText (by simp) u), absent ' ' (by simp) blank⟩

/-- The text behind a sign is unbroken too. -/
theorem Unbroken.tail {text : List Char} (unbroken : Unbroken ('-' :: text)) : Unbroken text := by
  rcases unbroken with ⟨opens, unblank⟩ | ⟨inner, rest, encloses, -, -⟩
  · exact .inl ⟨fun member => opens (List.mem_cons_of_mem _ member),
      fun member => unblank (List.mem_cons_of_mem _ member)⟩
  · simp at encloses

/-- What is behind a sum is known up to the next term. -/
theorem linkText_append_inj {as bs cs ds : List Char} (left : Unbroken as) (right : Unbroken bs)
    (stopLeft : ∀ c ∈ cs.head?, c = ' ') (stopRight : ∀ c ∈ ds.head?, c = ' ')
    (same : linkText as ++ cs = linkText bs ++ ds) : as = bs ∧ cs = ds := by
  unfold linkText at same
  split at same
  next rest =>
    split at same
    next rest' =>
      rcases left.tail.append_inj right.tail stopLeft stopRight (by simpa using same) with
        ⟨rfl, rfl⟩
      exact ⟨rfl, rfl⟩
    next => simp at same
  next =>
    split at same
    next => simp at same
    next => exact left.append_inj right stopLeft stopRight (by simpa using same)

theorem head?_linkText (text : List Char) : (linkText text).head? = some ' ' := by
  unfold linkText
  split <;> rfl

theorem head?_linksText (ts : List (Gaussian × Nat)) : ∀ c ∈ (linksText ts).head?, c = ' ' := by
  cases ts with
  | nil => simp [linksText]
  | cons t ts =>
    intro c head
    rw [linksText, List.map_cons, List.flatten_cons, List.head?_append, head?_linkText,
      Option.some_or] at head
    exact (Option.some.inj head).symm

theorem linksText_cons_ne_nil (t : Gaussian × Nat) (ts : List (Gaussian × Nat)) :
    linksText (t :: ts) ≠ [] := by
  rw [linksText, List.map_cons, List.flatten_cons]
  intro empty
  have head := head?_linkText (termText t)
  rw [(List.append_eq_nil_iff.mp empty).1] at head
  contradiction

/-- The terms behind the first one are known from their text. -/
theorem linksText_injective {ss ts : List (Gaussian × Nat)} (left : ∀ s ∈ ss, WritableTerm s)
    (right : ∀ t ∈ ts, WritableTerm t) (same : linksText ss = linksText ts) : ss = ts := by
  induction ss generalizing ts with
  | nil =>
    cases ts with
    | nil => rfl
    | cons t ts => exact absurd same.symm (linksText_cons_ne_nil t ts)
  | cons s ss ih =>
    cases ts with
    | nil => exact absurd same (linksText_cons_ne_nil s ss)
    | cons t ts =>
      rw [List.forall_mem_cons] at left right
      rcases linkText_append_inj (unbroken_termText s) (unbroken_termText t) (head?_linksText ss)
        (head?_linksText ts) same with ⟨first, rest⟩
      rw [termText_injective left.1 right.1 first, ih left.2 right.2 rest]

/-- A sum is known from its text. -/
theorem sumText_injective {s t : Gaussian × Nat} {ss ts : List (Gaussian × Nat)}
    (left : ∀ term ∈ s :: ss, WritableTerm term) (right : ∀ term ∈ t :: ts, WritableTerm term)
    (same : sumText s ss = sumText t ts) : s = t ∧ ss = ts := by
  rw [List.forall_mem_cons] at left right
  rcases (unbroken_termText s).append_inj (unbroken_termText t) (head?_linksText ss)
    (head?_linksText ts) same with ⟨first, rest⟩
  exact ⟨termText_injective left.1 right.1 first, linksText_injective left.2 right.2 rest⟩

/-! ## Polynomials -/

theorem lt_length_of_mem_terms {us : List Gaussian} {term : Gaussian × Nat}
    (member : term ∈ terms us) : term.1 ≠ 0 ∧ term.1 ∈ us ∧ term.2 < us.length := by
  induction us with
  | nil => contradiction
  | cons u us ih =>
    unfold terms at member
    split at member
    next =>
      rcases ih member with ⟨nonzero, inside, below⟩
      exact ⟨nonzero, List.mem_cons_of_mem _ inside, Nat.lt_succ_of_lt below⟩
    next nonzero =>
      rcases List.mem_cons.mp member with rfl | member
      · exact ⟨nonzero, List.mem_cons_self, Nat.lt_succ_self _⟩
      · rcases ih member with ⟨nonzero, inside, below⟩
        exact ⟨nonzero, List.mem_cons_of_mem _ inside, Nat.lt_succ_of_lt below⟩

/-- Lists of the same length with the same terms are the same. -/
theorem eq_of_terms_eq {us vs : List Gaussian} (length : us.length = vs.length)
    (same : terms us = terms vs) : us = vs := by
  induction us generalizing vs with
  | nil => exact (List.length_eq_zero_iff.mp length.symm).symm
  | cons u us ih =>
    cases vs with
    | nil => contradiction
    | cons v vs =>
      rw [List.length_cons, List.length_cons, Nat.succ_inj] at length
      -- A first term has the power of the length only where the first coefficient is not zero.
      have top : ∀ (w : Gaussian) (ws : List Gaussian) (rest : List (Gaussian × Nat)),
          terms ws ≠ (w, ws.length) :: rest := by
        intro w ws rest listed
        have below := (lt_length_of_mem_terms (listed ▸ List.mem_cons_self)).2.2
        exact absurd below (Nat.lt_irrefl _)
      rw [terms, terms] at same
      split at same
      next zero =>
        split at same
        next zero' => rw [zero, zero', ih length same]
        next =>
          rw [← length] at same
          exact absurd same (top v us _)
      next =>
        split at same
        next =>
          rw [length] at same
          exact absurd same.symm (top u vs _)
        next =>
          simp only [List.cons.injEq, Prod.mk.injEq] at same
          rw [same.1.1, ih length same.2]

theorem terms_strip (us : List Gaussian) : terms (Gaussian.strip us) = terms us := by
  induction us with
  | nil => rfl
  | cons u us ih =>
    by_cases zero : u = 0
    · simpa [Gaussian.strip, terms, zero] using ih
    · simp [Gaussian.strip, zero]

/-- The terms determine the coefficients from the first nonzero one on. -/
theorem terms_eq_iff {us vs : List Gaussian} :
    terms us = terms vs ↔ Gaussian.strip us = Gaussian.strip vs := by
  constructor
  · intro same
    rw [← terms_strip us, ← terms_strip vs] at same
    refine eq_of_terms_eq ?_ same
    -- The first term tells how many coefficients there are.
    have length : ∀ ws, (Gaussian.strip ws).length =
        ((terms (Gaussian.strip ws)).head?.map (·.2 + 1)).getD 0 := by
      intro ws
      cases stripped : Gaussian.strip ws with
      | nil => rfl
      | cons w ws => simp [terms, Gaussian.ne_zero_of_strip_eq_cons stripped]
    rw [length us, length vs, same]
  · intro same
    rw [← terms_strip us, ← terms_strip vs, same]

theorem writable_of_mem_terms {us : List Gaussian}
    (writable : ∀ u ∈ us, Writable u.re ∧ Writable u.im) : ∀ term ∈ terms us, WritableTerm term :=
  fun _ member => writable _ (lt_length_of_mem_terms member).2.1

theorem polynomialText_eq_iff {us vs : List Gaussian}
    (left : ∀ u ∈ us, Writable u.re ∧ Writable u.im)
    (right : ∀ v ∈ vs, Writable v.re ∧ Writable v.im) :
    polynomialText us = polynomialText vs ↔ Gaussian.strip us = Gaussian.strip vs := by
  rw [← terms_eq_iff]
  constructor
  · intro same
    have zero : ∀ term ∈ [((0 : Gaussian), 0)], WritableTerm term :=
      List.forall_mem_singleton.mpr ⟨writable_zero, writable_zero⟩
    have leftTerms := writable_of_mem_terms left
    have rightTerms := writable_of_mem_terms right
    have nonzero : ∀ {ws : List Gaussian} {rest : List (Gaussian × Nat)},
        terms ws ≠ (0, 0) :: rest := by
      intro ws rest listed
      exact (lt_length_of_mem_terms (listed ▸ List.mem_cons_self)).1 rfl
    unfold polynomialText at same
    cases listed : terms us with
    | nil =>
      cases listed' : terms vs with
      | nil => rfl
      | cons t ts =>
        rw [listed, listed'] at same
        rw [listed'] at rightTerms
        rcases sumText_injective zero rightTerms same with ⟨rfl, -⟩
        exact absurd listed' nonzero
    | cons s ss =>
      cases listed' : terms vs with
      | nil =>
        rw [listed, listed'] at same
        rw [listed] at leftTerms
        rcases sumText_injective leftTerms zero same with ⟨rfl, -⟩
        exact absurd listed nonzero
      | cons t ts =>
        rw [listed, listed'] at same
        rw [listed] at leftTerms
        rw [listed'] at rightTerms
        rcases sumText_injective leftTerms rightTerms same with ⟨rfl, rfl⟩
        rfl
  · intro same
    rw [polynomialText, polynomialText, same]

/-- Polynomials with exact coefficients that can be written are written alike just when their
coefficients are the same in simplest form and without the zeros in front. -/
theorem writePolynomial_eq_iff {cs ds : Coefficients} (exact : cs.AllGaussian)
    (exact' : ds.AllGaussian) (writable : ∀ u ∈ cs.numbers, Writable u.re ∧ Writable u.im)
    (writable' : ∀ u ∈ ds.numbers, Writable u.re ∧ Writable u.im) :
    ∃ s t stripped stripped', writePolynomial cs = .ok s ∧ writePolynomial ds = .ok t ∧
      cs.simplest.stripZeros = .ok stripped ∧ ds.simplest.stripZeros = .ok stripped' ∧
      (s = t ↔ stripped = stripped') := by
  have strips := Coefficients.stripZeros_ofGaussians cs.numbers
  have strips' := Coefficients.stripZeros_ofGaussians ds.numbers
  rw [← Coefficients.simplest_eq_ofGaussians exact] at strips
  rw [← Coefficients.simplest_eq_ofGaussians exact'] at strips'
  refine ⟨_, _, _, _, writePolynomial_of_writable exact writable,
    writePolynomial_of_writable exact' writable', strips, strips', ?_⟩
  rw [String.ofList_inj, polynomialText_eq_iff writable writable',
    Coefficients.ofGaussians_injective.eq_iff]

/-- A whole fraction and a zero in front make no difference, and the sign of a unit does. -/
theorem writePolynomial_eq_iff_signed :
    let cs : Coefficients := [.int 0, .frac 1, .exact 1 (-1) (by decide), .int 0, .frac (-3 / 2)]
    let ds : Coefficients := [.int 1, .exact 1 (-1) (by decide), .int 0, .frac (-3 / 2)]
    let es : Coefficients := [.int 1, .exact 1 1 (by decide), .int 0, .frac (-3 / 2)]
    (∀ vs ∈ [cs, ds, es], vs.AllGaussian ∧ ∀ u ∈ vs.numbers, Writable u.re ∧ Writable u.im) ∧
      writePolynomial cs = .ok "x³ + (1 - i)x² - 3/2" ∧ writePolynomial cs = writePolynomial ds ∧
      writePolynomial cs ≠ writePolynomial es := by
  intro cs ds es
  have small : ∀ vs ∈ [cs, ds, es],
      vs.AllGaussian ∧ ∀ u ∈ vs.numbers, Writable u.re ∧ Writable u.im := by
    have exact : ∀ vs ∈ [cs, ds, es], ∀ v ∈ vs, v.gaussian?.isSome = true := by decide
    have short : ∀ vs ∈ [cs, ds, es], ∀ u ∈ vs.numbers,
        (Short u.re.num.natAbs ∧ Short u.re.den) ∧ Short u.im.num.natAbs ∧ Short u.im.den := by
      decide +kernel
    intro vs listed
    refine ⟨exact vs listed, fun u member => ?_⟩
    rcases short vs listed u member with ⟨⟨num, den⟩, num', den'⟩
    exact ⟨⟨num, den⟩, num', den'⟩
  have spelled : String.ofList (polynomialText cs.numbers) = "x³ + (1 - i)x² - 3/2" := by
    decide +kernel
  have strips : cs.simplest.stripZeros.toOption = some ds := by decide +kernel
  have strips' : ds.simplest.stripZeros.toOption = some ds := by decide +kernel
  have strips'' : es.simplest.stripZeros.toOption = some es := by decide +kernel
  have different : ds ≠ es := by decide
  rcases small cs (by simp) with ⟨exact, writable⟩
  rcases small ds (by simp) with ⟨exact', writable'⟩
  rcases small es (by simp) with ⟨exact'', writable''⟩
  have written := writePolynomial_of_writable exact writable
  rw [spelled] at written
  refine ⟨small, written, ?_, ?_⟩
  · rcases writePolynomial_eq_iff exact exact' writable writable' with
      ⟨s, t, stripped, stripped', spelled, spelled', strip, strip', same⟩
    cases strip.symm.trans (toOption_eq_some_iff.mp strips)
    cases strip'.symm.trans (toOption_eq_some_iff.mp strips')
    rw [spelled, spelled', same.mpr rfl]
  · rcases writePolynomial_eq_iff exact exact'' writable writable'' with
      ⟨s, t, stripped, stripped', spelled, spelled', strip, strip', same⟩
    cases strip.symm.trans (toOption_eq_some_iff.mp strips)
    cases strip'.symm.trans (toOption_eq_some_iff.mp strips'')
    rw [spelled, spelled', Ne, Except.ok.injEq, same]
    exact different

end Report

end ExactRoots
