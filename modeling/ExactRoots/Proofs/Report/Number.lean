import ExactRoots.Proofs.Digits
import ExactRoots.Proofs.Expression.Token
import ExactRoots.Proofs.Value.Convergents
import ExactRoots.Proofs.Value.Exact
import ExactRoots.Proofs.Value.Faults
import ExactRoots.Proofs.Value.Plain
import ExactRoots.Proofs.Value.Range
import ExactRoots.Report.Number

/-!
# The texts of exact numbers

The text of an exact number is a ratio, a multiple of the imaginary unit, or a sum
of the two.  It can be written just when no numerator or denominator has too many
digits.
-/

namespace ExactRoots

open Outcome
open Binary64 (dyadic?_of_finite exponentField)
open Nat (toDigits)

namespace Report

/-! ## Texts -/

/-- The denominator of a rational that is no integer. -/
def denominator? (q : Rat) : Option Nat := if q.den = 1 then none else some q.den

/-- The factor that is written before the unit. -/
def factor? (q : Rat) : Option (Nat × Option Nat) :=
  if |q| = 1 then none else some (q.num.natAbs, denominator? q)

/-- The sign before a number. -/
def signText (negative : Bool) : List Char := if negative then ['-'] else []

/-- A ratio, whose denominator may be left out. -/
def ratioText (n : Nat) (d : Option Nat) : List Char :=
  toDigits 10 n ++ d.elim [] fun d => '/' :: toDigits 10 d

/-- A rational with its sign. -/
def rationalText (q : Rat) : List Char :=
  signText (q < 0) ++ ratioText q.num.natAbs (denominator? q)

/-- What stands before the unit. -/
def factorText (q : Rat) : List Char := (factor? q).elim [] fun size => ratioText size.1 size.2

/-- The text of a Gaussian rational. -/
def numberText (u : Gaussian) : List Char :=
  if u.im = 0 then rationalText u.re
  else if u.re = 0 then signText (u.im < 0) ++ factorText u.im ++ ['i']
  else rationalText u.re ++ [' ', if u.im < 0 then '-' else '+', ' '] ++ factorText u.im ++ ['i']

/-! ## Writing -/

theorem toString_eq_ofList (n : Int) :
    toString n = String.ofList (signText (n < 0) ++ toDigits 10 n.natAbs) := by
  cases n with
  | ofNat n => exact Nat.toString_eq_ofList_toDigits
  | negSucc n =>
    have unfolded : toString (Int.negSucc n) = "-" ++ Nat.repr (n + 1) := rfl
    rw [unfolded, Nat.repr_eq_ofList_toDigits, ← String.toList_inj]
    simp [signText, Int.negSucc_lt_zero]

theorem writeRational_of_writable {q : Rat} (writable : Writable q) :
    writeRational q = .ok (String.ofList (rationalText q)) := by
  have den : writeInt q.den = .ok (toString (q.den : Int)) := writeInt_of_short writable.den
  rw [writeRational, writeInt_of_short writable.num, toString_eq_ofList, writeDivisor, den,
    toString_eq_ofList]
  simp only [ok_bind, rationalText, ratioText, denominator?]
  by_cases whole : q.den = 1
  · simp [whole, Rat.num_neg]
  · simp only [whole, if_false, Except.map, ok_bind, pure_eq_ok, Except.ok.injEq,
      ← String.toList_inj]
    simp [Rat.num_neg, signText, Int.natAbs_natCast]

theorem writeRational_of_not_writable {q : Rat} (unwritable : ¬ Writable q) :
    writeRational q = .error .malformed :=
  (writtenIf_writeRational q).refused unwritable

theorem display_ofRat (q : Rat) : (Value.ofRat q).display = writeRational q := by
  rw [Value.ofRat]
  split
  next whole =>
    rw [Value.display, writeRational]
    cases writeInt q.num with
    | error fault => rfl
    | ok text => simp [whole, writeDivisor]
  next => rfl

theorem display_ofRat_of_writable {q : Rat} (writable : Writable q) :
    (Value.ofRat q).display = .ok (String.ofList (rationalText q)) := by
  rw [display_ofRat, writeRational_of_writable writable]

theorem writeReal_ofRat (q : Rat) : writeReal (Value.ofRat q) = writeRational q := by
  rw [← display_ofRat, Value.ofRat]
  split <;> rfl

/-! ### Sizes -/

theorem num_natAbs_abs (q : Rat) : |q|.num.natAbs = q.num.natAbs := by
  rcases abs_choice q with same | negated
  · rw [same]
  · rw [negated, Rat.neg_num, Int.natAbs_neg]

theorem den_abs (q : Rat) : |q|.den = q.den := by
  rcases abs_choice q with same | negated
  · rw [same]
  · rw [negated, Rat.neg_den]

theorem writable_abs {q : Rat} : Writable |q| ↔ Writable q := by
  constructor
  · rintro ⟨num, den⟩
    rw [num_natAbs_abs] at num
    rw [den_abs] at den
    exact ⟨num, den⟩
  · rintro ⟨num, den⟩
    rw [← num_natAbs_abs] at num
    rw [← den_abs] at den
    exact ⟨num, den⟩

theorem realSize_ofRat (q : Rat) : realSize (Value.ofRat q) = Value.ofRat |q| := by
  rw [Value.ofRat, Value.ofRat, den_abs]
  split
  next whole =>
    have num : |q|.num = (q.num.natAbs : Int) := by
      rw [← num_natAbs_abs, Int.natAbs_of_nonneg (Rat.num_nonneg.mpr (abs_nonneg q))]
    rw [num]
    rfl
  next fraction => exact congrArg Value.frac (rat_abs_eq q)

theorem rationalText_abs (q : Rat) :
    rationalText |q| = ratioText q.num.natAbs (denominator? q) := by
  rw [rationalText, denominator?, num_natAbs_abs, den_abs, ← denominator?, signText, if_neg]
  · rfl
  · simp

/-- Only the number one is written as a single one. -/
theorem ratioText_eq_one_iff {n : Nat} {d : Option Nat} :
    ratioText n d = ['1'] ↔ n = 1 ∧ d = none := by
  constructor
  · intro spelled
    cases d with
    | none =>
      rw [ratioText, Option.elim_none, List.append_nil] at spelled
      rw [← Expression.digitsValue_toDigits n, spelled]
      exact ⟨rfl, rfl⟩
    | some k =>
      have length := congrArg List.length spelled
      have first := Nat.length_toDigits_pos (b := 10) (n := n)
      have second := Nat.length_toDigits_pos (b := 10) (n := k)
      simp only [ratioText, Option.elim_some, List.length_append, List.length_cons,
        List.length_nil] at length
      omega
  · rintro ⟨rfl, rfl⟩
    rfl

theorem abs_eq_one_iff {q : Rat} : |q| = 1 ↔ q.num.natAbs = 1 ∧ denominator? q = none := by
  have whole : denominator? q = none ↔ q.den = 1 := by
    rw [denominator?]
    split <;> simp_all
  rw [whole, ← num_natAbs_abs, ← den_abs]
  constructor
  · intro one
    rw [one]
    exact ⟨rfl, rfl⟩
  · rintro ⟨num, den⟩
    have nonneg := Rat.num_nonneg.mpr (abs_nonneg q)
    exact Rat.ext (by rw [Rat.num_ofNat]; omega) den

theorem rationalText_abs_eq_one_iff {q : Rat} :
    String.ofList (rationalText |q|) = "1" ↔ |q| = 1 := by
  rw [abs_eq_one_iff, ← ratioText_eq_one_iff, ← rationalText_abs, ← String.toList_inj,
    String.toList_ofList]
  rfl

/-- The number one is not written before the unit. -/
theorem factorText_eq (q : Rat) :
    (if |q| = 1 then "" else String.ofList (rationalText |q|)).toList = factorText q := by
  rw [factorText, factor?]
  split
  · rfl
  · rw [String.toList_ofList, rationalText_abs]
    rfl

/-! ### Numbers -/

section Number

variable {v : Value} {u : Gaussian} (denoted : v.gaussian? = some u)

include denoted

/-- A number whose parts can be written is written. -/
theorem writeNumber_of_writable (re : Writable u.re) (im : Writable u.im) :
    writeNumber v = .ok (String.ofList (numberText u)) := by
  simp only [writeNumber, Value.realPart_of_gaussian? denoted, Value.imagPart_of_gaussian? denoted,
    Value.isZero_ofRat, Value.isBelowZero_ofRat, realSize_ofRat, writeReal_ofRat, ok_bind,
    writeRational_of_writable re, writeRational_of_writable (writable_abs.mpr im),
    rationalText_abs_eq_one_iff, numberText]
  by_cases real : u.im = 0
  · simp [real]
  · by_cases imaginary : u.re = 0
    · by_cases negative : u.im < 0 <;>
        simp [real, imaginary, negative, signText, ← String.toList_inj, factorText_eq]
    · by_cases negative : u.im < 0 <;>
        simp [real, imaginary, negative, ← String.toList_inj, factorText_eq]

/-- A number with a part that cannot be written is refused. -/
theorem writeNumber_of_not_writable (unwritable : ¬ (Writable u.re ∧ Writable u.im)) :
    writeNumber v = .error .malformed := by
  by_cases im : Writable u.im
  · have re : ¬ Writable u.re := fun re => unwritable ⟨re, im⟩
    have nonzero : u.re ≠ 0 := by
      intro real
      rw [real] at re
      exact re writable_zero
    simp [writeNumber, Value.realPart_of_gaussian? denoted, Value.imagPart_of_gaussian? denoted,
      Value.isZero_ofRat, Value.isBelowZero_ofRat, realSize_ofRat, writeReal_ofRat, nonzero,
      writeRational_of_not_writable re, writeRational_of_writable (writable_abs.mpr im)]
  · have nonreal : u.im ≠ 0 := by
      intro real
      rw [real] at im
      exact im writable_zero
    simp [writeNumber, Value.realPart_of_gaussian? denoted, Value.imagPart_of_gaussian? denoted,
      Value.isZero_ofRat, Value.isBelowZero_ofRat, realSize_ofRat, writeReal_ofRat, nonreal,
      writeRational_of_not_writable (mt writable_abs.mp im)]

end Number

/-! ### Doubles -/

theorem writable_of_sized {k : Nat} {q : Rat} (sized : Sized k q) (few : k < mostDigits) :
    Writable q :=
  ⟨short_of_le sized.num few, short_of_le sized.den few⟩

/-- A finite double is written. -/
theorem exists_writeFloat {x : Float} (finite : exponentField x < 2047) :
    ∃ text, writeFloat x = .ok text := by
  rcases dyadic?_of_finite finite with ⟨d, form, small, positive⟩
  have nearest : Short d.nearestInt.natAbs := by
    rw [d.natAbs_nearestInt]
    apply short_of_le _ (by decide : 309 < mostDigits)
    calc roundHalfEven d.ratio.1 d.ratio.2
      _ ≤ d.ratio.1 / d.ratio.2 + 1 := roundHalfEven_le _ _
      _ ≤ d.ratio.1 + 1 := Nat.succ_le_succ (Nat.div_le_self _ _)
      _ ≤ Binary64.numeratorLimit := small
      _ ≤ 10 ^ 309 := Binary64.numeratorLimit_le
  rw [writeFloat, form]
  dsimp only
  split
  next => exact ⟨_, writeInt_of_short nearest⟩
  next => exact ⟨_, rfl⟩

/-- An inexact number with finite parts is written. -/
theorem exists_writeNumber_inexact {a : Inexact} (below : a.Below 2047) :
    ∃ text, writeNumber (.inexact a) = .ok text := by
  rcases exists_writeFloat below.re with ⟨re, reWritten⟩
  have size := Binary64.exponentField_abs below.im
  rcases exists_writeFloat (size.trans_lt below.im) with ⟨im, imWritten⟩
  obtain x | ⟨x, y⟩ := a
  case real => exact ⟨re, reWritten⟩
  case complex =>
    have reWritten : writeReal (.float x) = .ok re := reWritten
    have imWritten : writeReal (realSize (.float y)) = .ok im := imWritten
    by_cases real : (y == 0.0) = true
    · have simple : (Value.complex x y).tidy = .float x := by
        simp [Value.tidy, Value.simplify, Value.ofFloat, real]
      refine ⟨re, ?_⟩
      simpa [writeNumber, Value.realPart, Value.imagPart, simple, Value.isZero] using reWritten
    · have simple : (Value.complex x y).tidy = .complex x y := by
        simp [Value.tidy, Value.simplify, real]
      have nonreal : (Value.float y).isZero = .ok false := by
        rw [Value.isZero_float, Bool.eq_false_of_not_eq_true real]
      have signed : (Value.float y).isBelowZero = .ok (y < 0.0) := rfl
      simp only [writeNumber, Value.realPart, Value.imagPart, simple, nonreal, signed, imWritten,
        Value.isZero_float, ok_bind, Bool.false_eq_true, if_false]
      by_cases imaginary : (x == 0.0) = true
      · simp [imaginary]
      · simp [imaginary, reWritten]

/-- Numbers in range are written. -/
theorem exists_writeNumber_of_rooted {k d : Nat} {v : Value} (rooted : Value.Rooted k d v)
    (finite : k ≤ 2047) (few : d < mostDigits) : ∃ text, writeNumber v = .ok text := by
  rcases rooted with ⟨u, rfl, re, im⟩ | ⟨a, rfl, below⟩
  · exact ⟨_, writeNumber_of_writable (Value.gaussian?_ofGaussian u) (writable_of_sized re few)
      (writable_of_sized im few)⟩
  · exact exists_writeNumber_inexact ⟨below.re.trans_le finite, below.im.trans_le finite⟩

/-! ### Faults -/

@[simp]
theorem operational_writeFloat (x : Float) : Operational (writeFloat x) := by
  rw [writeFloat]
  split
  next =>
    simp only [faultsIn_error]
    split <;> simp
  next =>
    dsimp only
    split <;> simp

@[simp]
theorem operational_writeReal (v : Value) : Operational (writeReal v) := by
  unfold writeReal
  split <;> simp

/-- Numbers are refused for their size only. -/
theorem operational_writeNumber (v : Value) : Operational (writeNumber v) := by
  simp [writeNumber]

/-! ## Polynomials -/

theorem exists_writeTerms {cs : Coefficients} (tested : ∀ c ∈ cs, ∃ zero, c.isZero = .ok zero)
    (written : ∀ c ∈ cs, ∃ text, writeNumber c = .ok text) :
    ∃ terms, writeTerms cs = .ok terms := by
  induction cs with
  | nil => exact ⟨[], rfl⟩
  | cons c cs ih =>
    rw [List.forall_mem_cons] at tested written
    rcases tested with ⟨⟨zero, test⟩, tested⟩
    rcases written with ⟨⟨text, spelled⟩, written⟩
    rcases ih tested written with ⟨terms, rest⟩
    cases zero with
    | true => simp [writeTerms, test, rest]
    | false => simp [writeTerms, writeTerm, test, spelled, rest]

/-- A polynomial is written when its coefficients are. -/
theorem exists_writePolynomial {cs : Coefficients}
    (tested : ∀ c ∈ cs, ∃ zero, c.isZero = .ok zero)
    (written : ∀ c ∈ cs, ∃ text, writeNumber c = .ok text) :
    ∃ text, writePolynomial cs = .ok text := by
  rcases exists_writeTerms tested written with ⟨terms, spelled⟩
  cases terms with
  | nil => simp [writePolynomial, spelled]
  | cons term terms => simp [writePolynomial, spelled]

end Report

end ExactRoots
