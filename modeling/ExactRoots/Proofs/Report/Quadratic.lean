import ExactRoots.Proofs.Coefficients.Range
import ExactRoots.Proofs.Deflation.Degree
import ExactRoots.Proofs.Deflation.Faults
import ExactRoots.Proofs.Report.Reading
import ExactRoots.Report.Request

/-!
# Requests for the roots of a quadratic

What a request with three rational coefficients is answered with.  Exact roots of any
size are found, and inexact ones while doubles hold all that leads to them.
-/

namespace ExactRoots

open Outcome Value

namespace Report

/-- Whether a text is that of a rational: the digits of a numerator, perhaps with a sign before
them and with a slash and the digits of a denominator behind, neither of them too long.  Blanks at
the ends do not count. -/
inductive Denotes (text : String) (q : Rat) : Prop
  | ratio {sign : List Char} {n : Nat} {d : Option Nat} (signed : sign ∈ [[], ['+'], ['-']])
      (spelled : Numeral.trim text.toList = sign ++ ratioText n d) (num : Short n)
      (den : ∀ k ∈ d, Short k) (positive : ∀ k ∈ d, 0 < k)
      (value : q = (if sign = ['-'] then -(n : Rat) else n) / (d.getD 1 : Nat))

namespace Denotes

variable {text : String} {q : Rat}

/-- Such a text is read as the rational. -/
theorem reads (denotes : Denotes text q) :
    readCoefficient Expression.parse text = .ok (.ofRat q) := by
  rcases denotes with @⟨sign, n, d, signed, spelled, num, den, positive, rfl⟩
  rw [readCoefficient_ratioText signed spelled num den positive, Expression.ratio]
  simp only [decide_eq_true_eq]

/-- In lowest terms a rational is no longer than in others. -/
theorem writable (denotes : Denotes text q) : Writable q := by
  rcases denotes with @⟨sign, n, d, -, -, num, den, positive, rfl⟩
  have whole : 0 < d.getD 1 ∧ Short (d.getD 1) := by
    cases d with
    | none => exact ⟨Nat.one_pos, short_one⟩
    | some k => exact ⟨positive k rfl, den k rfl⟩
  have quotient : (if sign = ['-'] then -(n : Rat) else n) / (d.getD 1 : Nat) =
      ((if sign = ['-'] then -(n : Int) else n : Int) : Rat) / ((d.getD 1 : Nat) : Int) := by
    split <;> simp
  have nonzero : ((d.getD 1 : Nat) : Int) ≠ 0 := Int.natCast_ne_zero.mpr whole.1.ne'
  rw [quotient]
  constructor
  · have size : (if sign = ['-'] then -(n : Int) else n : Int).natAbs = n := by
      split <;> simp
    exact (num_natAbs_div_le _ nonzero).trans_lt (size.trans_lt num)
  · exact (den_div_le _ nonzero).trans_lt whole.2

end Denotes

/-- The text that a rational is written as denotes it. -/
theorem denotes_rationalText {q : Rat} (writable : Writable q) :
    Denotes (String.ofList (rationalText q)) q := by
  have trimmed : Numeral.trim (String.ofList (rationalText q)).toList = rationalText q := by
    rw [String.toList_ofList, (Numeric.rationalText q).trim]
  have signed : signText (q < 0) ∈ [[], ['+'], ['-']] := by
    by_cases negative : q < 0 <;> simp [signText, negative]
  have minus : signText (q < 0) = ['-'] ↔ q < 0 := by
    by_cases negative : q < 0 <;> simp [signText, negative]
  refine .ratio signed trimmed writable.num (short_of_mem_denominator? writable)
    (fun _ => den_of_mem_denominator?) ?_
  have value := ratio_eq q
  rw [Expression.ratio] at value
  simpa only [minus, decide_eq_true_eq] using value.symm

/-- A request for the roots of `a * x ^ 2 + b * x + c`. -/
def quadraticRequest (a b c : String) : Raw :=
  .record [("a", .text a), ("b", .text b), ("c", .text c)]

theorem answerQuadratic_quadraticRequest (a b c : String) :
    answerQuadratic Expression.parse (quadraticRequest a b c) =
      .ok (respond (solveQuadraticText Expression.parse a b c)) :=
  rfl

theorem writeNumber_ofRat {q : Rat} (writable : Writable q) :
    writeNumber (.ofRat q) = .ok (String.ofList (rationalText q)) := by
  have written := writeNumber_of_writable (gaussian?_ofRat q) writable writable_zero
  rw [written, numberText, if_pos]
  · rfl
  · rfl

section Roots

variable {roots : List Gaussian}

theorem mapM_writeNumber_of_writable
    (writable : ∀ u ∈ roots, Writable u.re ∧ Writable u.im) :
    (Coefficients.ofGaussians roots).mapM writeNumber =
      .ok (roots.map fun u => String.ofList (numberText u)) := by
  induction roots with
  | nil => rfl
  | cons u us ih =>
    rw [List.forall_mem_cons] at writable
    have written := writeNumber_of_writable (gaussian?_ofGaussian u) writable.1.1 writable.1.2
    simp [written, ih writable.2]

theorem mapM_writeNumber_of_not_writable
    (unwritable : ¬ ∀ u ∈ roots, Writable u.re ∧ Writable u.im) :
    (Coefficients.ofGaussians roots).mapM writeNumber = .error .malformed := by
  induction roots with
  | nil => exact absurd (fun u member => absurd member List.not_mem_nil) unwritable
  | cons u us ih =>
    by_cases short : Writable u.re ∧ Writable u.im
    · have rest : ¬ ∀ u ∈ us, Writable u.re ∧ Writable u.im := fun rest =>
        unwritable (List.forall_mem_cons.mpr ⟨short, rest⟩)
      have written := writeNumber_of_writable (gaussian?_ofGaussian u) short.1 short.2
      simp [written, ih rest]
    · have refused := writeNumber_of_not_writable (gaussian?_ofGaussian u) short
      simp [refused]

end Roots

/-- Whether a request is answered with two roots. -/
def AnsweredWithPair (request : Raw) : Prop :=
  ∃ solution, answerQuadratic Expression.parse request = .ok (.ok solution) ∧
    solution.roots.length = 2

/-- Whether a request is answered with exact roots, or refused because one of them is too
long. -/
structure AnsweredExactly (request : Raw) (roots : List Gaussian) : Prop where
  written : (∀ u ∈ roots, Writable u.re ∧ Writable u.im) → ∃ polynomial,
    answerQuadratic Expression.parse request =
      .ok (.ok ⟨polynomial, roots.map fun u => String.ofList (numberText u)⟩)
  refused : ¬ (∀ u ∈ roots, Writable u.re ∧ Writable u.im) →
    answerQuadratic Expression.parse request = .ok (.error ⟨400, .malformed⟩)

section Rational

variable {a b c : String} {α β γ : Rat} (first : Denotes a α) (second : Denotes b β)
  (third : Denotes c γ)

include first second third

/-- The roots are those of the three rationals, and the polynomial can be written. -/
theorem solveQuadraticText_eq : ∃ polynomial, solveQuadraticText Expression.parse a b c = (do
    let found ← solveQuadratic (.ofRat α) (.ofRat β) (.ofRat γ)
    return { polynomial, roots := ← found.mapM writeNumber }) := by
  have read : readCoefficients Expression.parse [a, b, c] = .ok [.ofRat α, .ofRat β, .ofRat γ] := by
    simp [readCoefficients, first.reads, second.reads, third.reads]
  have written : ∃ text, writePolynomial [.ofRat α, .ofRat β, .ofRat γ] = .ok text := by
    apply exists_writePolynomial
    · simp only [List.forall_mem_cons, isZero_ofRat]
      simp
    · simp [writeNumber_ofRat, first.writable, second.writable, third.writable]
  rcases written with ⟨polynomial, written⟩
  refine ⟨polynomial, ?_⟩
  simp [solveQuadraticText, read, written]

/-- Exact roots are written unless one of them is too long. -/
theorem answeredExactly_of_solved {roots : List Gaussian}
    (solved : solveQuadratic (.ofRat α) (.ofRat β) (.ofRat γ) =
      .ok (Coefficients.ofGaussians roots)) :
    AnsweredExactly (quadraticRequest a b c) roots := by
  rcases solveQuadraticText_eq first second third with ⟨polynomial, opened⟩
  constructor
  · intro writable
    rw [answerQuadratic_quadraticRequest, opened, solved, ok_bind,
      mapM_writeNumber_of_writable writable]
    exact ⟨polynomial, rfl⟩
  · intro unwritable
    rw [answerQuadratic_quadraticRequest, opened, solved, ok_bind,
      mapM_writeNumber_of_not_writable unwritable]
    rfl

/-- A constant has no roots to ask for. -/
theorem answerQuadratic_of_degenerate (noSquare : α = 0) (noLinear : β = 0) :
    answerQuadratic Expression.parse (quadraticRequest a b c) =
      .ok (.error ⟨400, .degenerateQuadratic "0" "0" (String.ofList (rationalText γ))⟩) := by
  subst noSquare noLinear
  have coerced := coerceDecimals_simplest (gaussian?_ofRat 0) (gaussian?_ofRat 0)
    (gaussian?_ofRat γ)
  have solved : solveQuadratic (.ofRat 0) (.ofRat 0) (.ofRat γ) =
      .error (.degenerateQuadratic "0" "0" (String.ofList (rationalText γ))) := by
    have zero : (Value.ofRat 0).display = .ok "0" := display_ofRat_of_writable writable_zero
    rw [solveQuadratic, coerced, ofGaussian_ofRat, ofGaussian_ofRat]
    simp only [ok_bind, isZero_ofRat, zero, display_ofRat_of_writable third.writable]
    rfl
  rcases solveQuadraticText_eq first second third with ⟨polynomial, opened⟩
  rw [answerQuadratic_quadraticRequest, opened, solved]
  rfl

/-- Without a quadratic term the linear equation is solved. -/
theorem answeredExactly_of_linear (noSquare : α = 0) (linear : β ≠ 0) :
    AnsweredExactly (quadraticRequest a b c) [.ofRat (-γ / β)] := by
  have noSquare' : Gaussian.ofRat α = 0 := congrArg Gaussian.ofRat noSquare
  have linear' : Gaussian.ofRat β ≠ 0 := fun zero => linear (congrArg Gaussian.re zero)
  have solved := solveQuadratic_of_linear (gaussian?_ofRat α) (gaussian?_ofRat β)
    (gaussian?_ofRat γ) noSquare' linear'
  rw [← Gaussian.ofRat_neg, ← Gaussian.ofRat_div] at solved
  exact answeredExactly_of_solved first second third solved

/-- A square discriminant leads to exact roots. -/
theorem answeredExactly_of_isSquare (square : α ≠ 0) {w : Gaussian}
    (root : .ofRat (β * β - 4 * α * γ) = w * w) :
    AnsweredExactly (quadraticRequest a b c)
      [(-.ofRat β + w.principal) / (2 * .ofRat α), (-.ofRat β - w.principal) / (2 * .ofRat α)] := by
  have square' : Gaussian.ofRat α ≠ 0 := fun zero => square (congrArg Gaussian.re zero)
  rw [← Gaussian.discriminant_ofRat] at root
  exact answeredExactly_of_solved first second third (solveQuadratic_of_isSquare
    (gaussian?_ofRat α) (gaussian?_ofRat β) (gaussian?_ofRat γ) square' root)

omit first second third in
theorem operational_sqrt_ofRat (q : Rat) : Operational (Value.ofRat q).sqrt := by
  rw [sqrt_ofRat_eq]
  simp

/-- With a quadratic term there are two roots, unless arithmetic fails. -/
theorem answerQuadratic_of_ne_zero (square : α ≠ 0) :
    AnsweredWithPair (quadraticRequest a b c) ∨
      ∃ failure, answerQuadratic Expression.parse (quadraticRequest a b c) = .ok (.error failure) ∧
        failure.fault.IsOperational := by
  have solving : Operational (solveQuadratic (.ofRat α) (.ofRat β) (.ofRat γ)) := by
    rw [solveQuadratic_ofRat square]
    simp [operational_sqrt_ofRat, operational_quadraticFormula]
  have pair : Yields (fun found => found.length = 2)
      (solveQuadratic (.ofRat α) (.ofRat β) (.ofRat γ)) := by
    rw [solveQuadratic_ofRat square, yields_bind_iff]
    exact fun _ _ _ solved => Deflation.quadraticFormula_length solved
  rcases solveQuadraticText_eq first second third with ⟨polynomial, opened⟩
  rw [AnsweredWithPair, answerQuadratic_quadraticRequest, opened]
  cases solved : solveQuadratic (.ofRat α) (.ofRat β) (.ofRat γ) with
  | error fault => exact .inr ⟨⟨status fault, fault⟩, rfl, solving fault solved⟩
  | ok found =>
    have writing : Operational (found.mapM writeNumber) :=
      FaultsIn.mapM fun v _ => operational_writeNumber v
    rw [ok_bind]
    cases written : found.mapM writeNumber with
    | error fault => exact .inr ⟨⟨status fault, fault⟩, rfl, writing fault written⟩
    | ok roots =>
      have length := (mapM_eq_ok_iff.mp written).length_eq
      exact .inl ⟨⟨polynomial, roots⟩, rfl, length.symm.trans (pair found solved)⟩

/-- While the coefficients have at most 150 digits, both roots are written. -/
theorem answerQuadratic_of_sized (square : α ≠ 0) (sized₁ : Sized 150 α) (sized₂ : Sized 150 β)
    (sized₃ : Sized 150 γ) : AnsweredWithPair (quadraticRequest a b c) := by
  rcases solveQuadratic_of_sized sized₁ sized₂ sized₃ square with
    ⟨r₁, r₂, solved, rooted₁, rooted₂⟩
  rcases exists_writeNumber_of_rooted rooted₁ (by decide) (by decide) with ⟨text₁, written₁⟩
  rcases exists_writeNumber_of_rooted rooted₂ (by decide) (by decide) with ⟨text₂, written₂⟩
  rcases solveQuadraticText_eq first second third with ⟨polynomial, opened⟩
  refine ⟨⟨polynomial, [text₁, text₂]⟩, ?_, rfl⟩
  rw [answerQuadratic_quadraticRequest, opened, solved, ok_bind]
  simp [written₁, written₂, respond]

/-- What a request with three rational coefficients is answered with.  A constant is refused,
and the root of a linear equation is answered exactly unless it is too long to be written.
With a quadratic term there are two roots unless arithmetic fails: exact ones when the
discriminant is the square of a Gaussian rational, and at any rate two when the coefficients
have at most 150 digits. -/
theorem answerQuadratic_rational :
    (α = 0 → β = 0 → answerQuadratic Expression.parse (quadraticRequest a b c) =
      .ok (.error ⟨400, .degenerateQuadratic "0" "0" (String.ofList (rationalText γ))⟩)) ∧
    (α = 0 → β ≠ 0 → AnsweredExactly (quadraticRequest a b c) [.ofRat (-γ / β)]) ∧
    (α ≠ 0 →
      (AnsweredWithPair (quadraticRequest a b c) ∨
        ∃ failure, answerQuadratic Expression.parse (quadraticRequest a b c) =
          .ok (.error failure) ∧ failure.fault.IsOperational) ∧
      (∀ w : Gaussian, .ofRat (β * β - 4 * α * γ) = w * w →
        AnsweredExactly (quadraticRequest a b c)
          [(-.ofRat β + w.principal) / (2 * .ofRat α),
            (-.ofRat β - w.principal) / (2 * .ofRat α)]) ∧
      (Sized 150 α → Sized 150 β → Sized 150 γ →
        AnsweredWithPair (quadraticRequest a b c))) := by
  refine ⟨answerQuadratic_of_degenerate first second third,
    answeredExactly_of_linear first second third, fun square => ⟨?_, ?_, ?_⟩⟩
  · exact answerQuadratic_of_ne_zero first second third square
  · exact fun _ => answeredExactly_of_isSquare first second third square
  · exact answerQuadratic_of_sized first second third square

end Rational

/-- A quadratic with irrational roots, a linear equation and a constant. -/
theorem answerQuadratic_rational_halves :
    Denotes "0" 0 ∧ Denotes "1/2" (1 / 2) ∧ Denotes "-1" (-1) ∧
      AnsweredWithPair (quadraticRequest "1/2" "0" "-1") ∧
      (∃ polynomial, answerQuadratic Expression.parse (quadraticRequest "0" "1/2" "-1") =
        .ok (.ok ⟨polynomial, ["2"]⟩)) ∧
      answerQuadratic Expression.parse (quadraticRequest "0" "0" "1/2") =
        .ok (.error ⟨400, .degenerateQuadratic "0" "0" "1/2"⟩) := by
  have spelled : "0" = String.ofList (rationalText 0) ∧
      "1/2" = String.ofList (rationalText (1 / 2)) ∧
      "-1" = String.ofList (rationalText (-1)) := by decide +kernel
  have zero : Denotes "0" 0 := spelled.1 ▸ denotes_rationalText writable_zero
  have half : Denotes "1/2" (1 / 2) :=
    spelled.2.1 ▸ denotes_rationalText ⟨by decide +kernel, by decide +kernel⟩
  have minusOne : Denotes "-1" (-1) :=
    spelled.2.2 ▸ denotes_rationalText ⟨by decide +kernel, by decide +kernel⟩
  have quadratic := ((answerQuadratic_rational half zero minusOne).2.2 (by decide +kernel)).2.2
    ⟨by decide +kernel, by decide +kernel⟩ ⟨by decide +kernel, by decide +kernel⟩
    ⟨by decide, by decide⟩
  have linear := (answerQuadratic_rational zero half minusOne).2.1 rfl (by decide +kernel)
  have constant := (answerQuadratic_rational zero zero half).1 rfl rfl
  have root : Writable (- -1 / (1 / 2)) := ⟨by decide +kernel, by decide +kernel⟩
  have written : [Gaussian.ofRat (- -1 / (1 / 2))].map (fun u => String.ofList (numberText u)) =
      ["2"] := by decide +kernel
  rw [← spelled.2.1] at constant
  refine ⟨zero, half, minusOne, quadratic, ?_, constant⟩
  rw [← written]
  apply linear.written
  rw [List.forall_mem_singleton]
  exact ⟨root, writable_zero⟩

/-- A discriminant too large for a double has a root, but that is not divided by a coefficient
too large for one. -/
theorem answerQuadratic_overflows :
    let large := String.ofList (rationalText (10 ^ 400))
    let none := String.ofList (rationalText 0)
    let below := String.ofList (rationalText (-2 * 10 ^ 400))
    Denotes large (10 ^ 400) ∧ Denotes none 0 ∧ Denotes below (-2 * 10 ^ 400) ∧
      answerQuadratic Expression.parse (quadraticRequest large none below) =
        .ok (.error ⟨500, .overflow⟩) := by
  intro large none below
  have first : Denotes large (10 ^ 400) :=
    denotes_rationalText ⟨by decide +kernel, by decide +kernel⟩
  have second : Denotes none 0 := denotes_rationalText writable_zero
  have third : Denotes below (-2 * 10 ^ 400) :=
    denotes_rationalText ⟨by decide +kernel, by decide +kernel⟩
  have failed : fault? (solveQuadratic (.ofRat (10 ^ 400)) (.ofRat 0) (.ofRat (-2 * 10 ^ 400))) =
      some .overflow := by decide +kernel
  rcases solveQuadraticText_eq first second third with ⟨polynomial, opened⟩
  refine ⟨first, second, third, ?_⟩
  rw [answerQuadratic_quadraticRequest, opened, fault?_eq_some_iff.mp failed]
  rfl

end Report

end ExactRoots
