import ExactRoots.Expression.Reader
import Mathlib.Data.List.TakeWhile
import Mathlib.Data.Nat.Digits.Defs

/-!
# Reading the tokens of written numbers

The decimal digits of a natural number, signs, slashes, blanks and the imaginary
unit are read back as the tokens that they stand for, one after the other.
-/

namespace ExactRoots.Expression

open Nat (toDigits)

/-! ## Decimal digits -/

theorem digitsValue_toDigits (n : Nat) : Numeral.digitsValue (toDigits 10 n) = n := by
  have same : Numeral.digitsValue (toDigits 10 n) = Nat.ofDigitChars 10 (toDigits 10 n) 0 := by
    simp only [Numeral.digitsValue, Nat.ofDigitChars_eq_foldl, Nat.mul_comm]
  rw [same, Nat.ofDigitChars_ten_toDigits]

theorem isDigit_of_mem_toDigits {n : Nat} {c : Char} (member : c ∈ toDigits 10 n) :
    c.isDigit = true :=
  Nat.isDigit_of_mem_toDigits (by decide) (by decide) member

/-- Only zero is written with a zero in front. -/
theorem head?_toDigits {n : Nat} (positive : 0 < n) : (toDigits 10 n).head? ≠ some '0' := by
  induction n using Nat.strongRecOn with
  | ind n ih =>
    rcases Nat.lt_or_ge n 10 with small | large
    · have digits : ∀ m < 10, 0 < m → [Nat.digitChar m].head? ≠ some '0' := by decide
      rw [Nat.toDigits_of_lt_base small]
      exact digits n small positive
    · rw [Nat.toDigits_of_base_le (by decide) large, List.head?_append,
        Option.or_of_isSome (List.isSome_head?.mpr Nat.toDigits_ne_nil)]
      exact ih (n / 10) (by omega) (by omega)

/-! ## Reading numbers -/

/-- Whether nothing at the head of a text continues a number before it. -/
def EndsNumber (rest : List Char) : Prop :=
  ∀ c ∈ rest.head?, c.isDigit = false ∧ c ∉ ['.', 'e', 'E', 'j', 'J'] ∧ base? c = none

theorem takeWhile_isDigit {n : Nat} {rest : List Char} (ends : EndsNumber rest) :
    (toDigits 10 n ++ rest).takeWhile Char.isDigit = toDigits 10 n ∧
      (toDigits 10 n ++ rest).dropWhile Char.isDigit = rest := by
  rw [List.takeWhile_append_of_pos fun _ => isDigit_of_mem_toDigits,
    List.dropWhile_append_of_pos fun _ => isDigit_of_mem_toDigits]
  cases rest with
  | nil => simp
  | cons c rest => simp [(ends c rfl).1]

theorem takeExponent_of_endsNumber {rest : List Char} (ends : EndsNumber rest) :
    takeExponent rest = none := by
  cases rest with
  | nil => rfl
  | cons c rest =>
    have other := (ends c rfl).2.1
    simp only [List.mem_cons, not_or] at other
    simp [takeExponent, other]

theorem takeDecimal?_toDigits {n : Nat} {rest : List Char} (short : n < 10 ^ mostDigits)
    (ends : EndsNumber rest) : takeDecimal? (toDigits 10 n ++ rest) = some (.whole n, rest) := by
  rcases takeWhile_isDigit (n := n) ends with ⟨taken, dropped⟩
  have few : ¬ mostDigits < (toDigits 10 n).length :=
    Nat.not_lt.mpr ((Nat.length_toDigits_le_iff (by decide) (by decide)).mpr short)
  have noExponent := takeExponent_of_endsNumber ends
  rw [takeDecimal?, taken, dropped]
  dsimp only
  split
  next tail => exact absurd (by simp) (ends '.' rfl).2.1
  next =>
    rw [noExponent]
    dsimp only
    split
    next empty => exact absurd empty Nat.toDigits_ne_nil
    next digits zero =>
      obtain rfl : n = 0 := by
        by_contra nonzero
        exact head?_toDigits (Nat.pos_of_ne_zero nonzero) (by rw [zero]; rfl)
      rw [Nat.toDigits_zero] at zero
      cases zero
      rfl
    next => rw [if_neg few, digitsValue_toDigits]

/-- A number without a letter behind it is written to base ten. -/
theorem takeBased?_toDigits {n : Nat} {rest : List Char} (ends : EndsNumber rest) :
    takeBased? (toDigits 10 n ++ rest) = none := by
  rcases Nat.eq_zero_or_pos n with rfl | positive
  · rw [Nat.toDigits_zero]
    cases rest with
    | nil => rfl
    | cons c rest => simp [takeBased?, (ends c rfl).2.2]
  · have leads := head?_toDigits positive
    unfold takeBased?
    split
    next letter cs spelled =>
      have front := congrArg List.head? spelled
      rw [List.head?_append, Option.or_of_isSome (List.isSome_head?.mpr Nat.toDigits_ne_nil)]
        at front
      exact absurd front leads
    next => rfl

theorem takeNumber?_toDigits {n : Nat} {rest : List Char} (short : n < 10 ^ mostDigits)
    (ends : EndsNumber rest) : takeNumber? (toDigits 10 n ++ rest) = some (.whole n, rest) := by
  rw [takeNumber?, takeBased?_toDigits ends, Option.none_or, takeDecimal?_toDigits short ends]

/-- A digit is no blank and no operator. -/
theorem not_sign_of_isDigit {c : Char} (digit : c.isDigit = true) :
    (c == ' ') = false ∧ (c == '\t') = false ∧ (c == '*') = false ∧ operator? c = none := by
  have different : ∀ d : Char, d.isDigit = false → (c == d) = false := by
    intro d other
    rw [beq_eq_false_iff_ne]
    rintro rfl
    rw [digit] at other
    contradiction
  refine ⟨different _ rfl, different _ rfl, different _ rfl, ?_⟩
  unfold operator?
  split <;> first | rfl | exact absurd digit (by decide)

/-! ## Reading texts -/

/-- Whether a text consists of these tokens. -/
def Lexes (cs : List Char) (ts : List Token) : Prop :=
  ∀ fuel, cs.length ≤ fuel → tokensWithin fuel cs = some ts

namespace Lexes

variable {cs : List Char} {ts : List Token}

theorem nil : Lexes [] [] := by
  rintro (_ | fuel) - <;> rfl

theorem blank (rest : Lexes cs ts) : Lexes (' ' :: cs) ts := by
  rintro (_ | fuel) enough
  · contradiction
  · exact rest fuel (Nat.le_of_succ_le_succ enough)

theorem operator {c : Char} {t : Token} (sign : c ∈ ['+', '-', '/']) (reads : operator? c = some t)
    (rest : Lexes cs ts) : Lexes (c :: cs) (t :: ts) := by
  rintro (_ | fuel) enough
  · contradiction
  have later := rest fuel (Nat.le_of_succ_le_succ enough)
  have proper : (c == ' ') = false ∧ (c == '\t') = false ∧ (c == '*') = false := by
    simp only [List.mem_cons, List.not_mem_nil, or_false] at sign
    rcases sign with rfl | rfl | rfl <;> decide
  simp [tokensWithin, proper, reads, later]

theorem whole {n : Nat} (short : n < 10 ^ mostDigits) (ends : EndsNumber cs) (rest : Lexes cs ts) :
    Lexes (toDigits 10 n ++ cs) (.whole n :: ts) := by
  intro fuel enough
  obtain ⟨c, digits, spelled⟩ :=
    List.exists_cons_of_ne_nil (Nat.toDigits_ne_nil (b := 10) (n := n))
  have number := takeNumber?_toDigits short ends
  clear short
  rw [spelled, List.cons_append] at number enough ⊢
  cases fuel with
  | zero => contradiction
  | succ fuel =>
    have later : tokensWithin fuel cs = some ts := by
      apply rest fuel
      rw [List.length_cons, List.length_append] at enough
      omega
    have digit : c.isDigit = true := isDigit_of_mem_toDigits (n := n) (by simp [spelled])
    rcases not_sign_of_isDigit digit with ⟨space, tab, star, none⟩
    simp only [tokensWithin, space, tab, star, none, digit, number, Bool.or_self, Bool.true_or,
      Bool.false_eq_true, if_false, if_true]
    split
    next => contradiction
    next tail read =>
      cases read
      exact absurd (by simp) (ends 'j' rfl).2.1
    next tail read =>
      cases read
      exact absurd (by simp) (ends 'J' rfl).2.1
    next read =>
      cases read
      simp [later]

theorem unit : Lexes ['I'] [.unit] := by
  rintro (_ | _ | fuel) enough
  · contradiction
  · rfl
  · rfl

end Lexes

/-! ## Marking powers and units -/

/-- Whether no character of a text is a letter or a power sign. -/
def Unmarked (cs : List Char) : Prop := ∀ c ∈ cs, isLetter c = false ∧ c ≠ '^'

theorem Unmarked.append {cs ds : List Char} (first : Unmarked cs) (second : Unmarked ds) :
    Unmarked (cs ++ ds) :=
  List.forall_mem_append.mpr ⟨first, second⟩

theorem not_unit_of_not_letter {c : Char} (other : isLetter c = false) :
    (c == 'i' || c == 'j') = false := by
  rw [Bool.or_eq_false_iff, beq_eq_false_iff_ne, beq_eq_false_iff_ne]
  constructor
  · rintro rfl
    contradiction
  · rintro rfl
    contradiction

theorem markPowers_append (cs ds : List Char) :
    markPowers (cs ++ ds) = markPowers cs ++ markPowers ds :=
  List.flatMap_append

theorem markPowers_of_unmarked {cs : List Char} (unmarked : Unmarked cs) : markPowers cs = cs := by
  induction cs with
  | nil => rfl
  | cons c rest ih =>
    rcases List.forall_mem_cons.mp unmarked with ⟨⟨-, other⟩, tail⟩
    have split : markPowers (c :: rest) =
        (if c == '^' then ['*', '*'] else [c]) ++ markPowers rest := rfl
    rw [split, ih tail, beq_eq_false_iff_ne.mpr other]
    rfl

/-- A text without letters and power signs is in the notation of expressions. -/
theorem marked_of_unmarked {cs : List Char} (unmarked : Unmarked cs) : marked cs = cs := by
  have units (afterLetter : Bool) : markUnits afterLetter cs = cs := by
    induction cs generalizing afterLetter with
    | nil => rfl
    | cons c rest ih =>
      rcases List.forall_mem_cons.mp unmarked with ⟨⟨head, -⟩, tail⟩
      rw [markUnits, ih tail, not_unit_of_not_letter head]
      rfl
  rw [marked, markPowers_of_unmarked unmarked, units]

/-- A unit behind such a text is marked. -/
theorem marked_unit {cs : List Char} (unmarked : Unmarked cs) :
    marked (cs ++ ['i']) = cs ++ ['I'] := by
  have units : markUnits false (cs ++ ['i']) = cs ++ ['I'] := by
    induction cs with
    | nil => rfl
    | cons c rest ih =>
      rcases List.forall_mem_cons.mp unmarked with ⟨⟨head, -⟩, tail⟩
      rw [List.cons_append, markUnits, head, ih tail, not_unit_of_not_letter head]
      rfl
  rw [marked, markPowers_append, markPowers_of_unmarked unmarked]
  exact units

theorem not_isLetter_of_isDigit {c : Char} (digit : c.isDigit = true) : isLetter c = false := by
  unfold Char.isDigit at digit
  unfold isLetter Char.isAlpha Char.isUpper Char.isLower
  simp [UInt32.le_iff_toNat_le] at digit ⊢
  omega

/-! ## Whole texts -/

theorem tokens?_of_lexes {cs : List Char} {ts : List Token} (unmarked : Unmarked cs)
    (reads : Lexes cs ts) : tokens? (marked cs) = some ts := by
  rw [marked_of_unmarked unmarked]
  exact reads cs.length le_rfl

theorem tokens?_unit {cs : List Char} {ts : List Token} (unmarked : Unmarked cs)
    (reads : Lexes (cs ++ ['I']) ts) : tokens? (marked (cs ++ ['i'])) = some ts := by
  rw [marked_unit unmarked]
  exact reads _ le_rfl

end ExactRoots.Expression
