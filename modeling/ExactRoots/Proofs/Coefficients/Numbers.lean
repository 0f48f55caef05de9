import ExactRoots.Poly
import ExactRoots.Proofs.Coefficients.Support
import ExactRoots.Proofs.Value.Numbers

/-!
# Coefficients that are numbers

Division and differentiation lead from numbers to numbers, so that no text ever comes
to stand among the coefficients of a polynomial.
-/

namespace ExactRoots

open Value Outcome

namespace Coefficients

/-- Whether all coefficients are numbers. -/
def AllNumbers (cs : Coefficients) : Prop := ∀ c ∈ cs, c.isNumber = true

theorem AllNumbers.simplest {cs : Coefficients} (numbers : cs.AllNumbers) :
    cs.simplest.AllNumbers :=
  isNumber_of_simplest numbers

theorem AllNumbers.mapM {cs : Coefficients} {f : Value → Except Fault Value}
    (each : ∀ v, GivesNumber (f v)) : Yields AllNumbers (cs.mapM f) :=
  .mapM fun c _ => each c

theorem allNumbers_stripZeros {cs : Coefficients} (numbers : cs.AllNumbers) :
    Yields AllNumbers cs.stripZeros :=
  fun _ strips c member => numbers c (mem_of_stripZeros strips c member)

section Row

variable {c : Value}

theorem givesNumber_column (q d : Value) (entry : c.isNumber = true) :
    GivesNumber (column q d c) := by
  refine yields_bind_iff.mpr fun e negated => yields_bind_iff.mpr fun p product => ?_
  refine yields_bind_iff.mpr fun v sum => yields_ok.mpr (isNumber_simplify ?_)
  exact givesNumber_add entry v sum

theorem givesNumber_closeColumn (lead : Value) (entry : c.isNumber = true) :
    GivesNumber (closeColumn lead c) := by
  refine yields_bind_iff.mpr fun isOne _ => yields_ite_iff.mpr ⟨fun _ => ?_, fun _ => ?_⟩
  · exact yields_ok.mpr entry
  · exact givesNumber_quo c lead

theorem allNumbers_subtractMultiple (q : Value) (lower : Coefficients) {row : Coefficients}
    (entries : row.AllNumbers) : Yields AllNumbers (subtractMultiple q lower row) := by
  have ends : Ends (fun _ => True) AllNumbers (subtractMultiple q lower row) :=
    subtractMultiple_forall entries fun d _ c entry =>
      ⟨fun _ _ => trivial, givesNumber_column q d (entries c entry)⟩
  exact ends.2

end Row

/-- The coefficients that a division leads to. -/
theorem allNumbers_divideRow (lead : Value) (lower : Coefficients) (steps : Nat)
    {row : Coefficients} (entries : row.AllNumbers) :
    Yields (fun division => division.quotient.AllNumbers ∧ division.remainder.AllNumbers)
      (divideRow lead lower steps row) := by
  induction steps generalizing row with
  | zero => exact yields_ok.mpr ⟨List.forall_mem_nil _, entries⟩
  | succ steps ih =>
    cases row with
    | nil => exact yields_ok.mpr ⟨List.forall_mem_nil _, entries⟩
    | cons c cs =>
      obtain ⟨first, others⟩ := List.forall_mem_cons.mp entries
      rw [divideRow_succ]
      refine yields_bind_iff.mpr fun q closed => yields_bind_iff.mpr fun rest subtracted => ?_
      refine yields_bind_iff.mpr fun division divided => yields_ok.mpr ?_
      have below := ih (allNumbers_subtractMultiple q lower others rest subtracted) division divided
      exact ⟨List.forall_mem_cons.mpr ⟨givesNumber_closeColumn lead first q closed, below.1⟩, below.2⟩

theorem allNumbers_divide {dividend divisor : Coefficients} (numbers : dividend.AllNumbers)
    (numbers' : divisor.AllNumbers) :
    Yields (fun division => division.quotient.AllNumbers ∧ division.remainder.AllNumbers)
      (divide dividend divisor) := by
  refine yields_bind_iff.mpr fun stripped strips => yields_bind_iff.mpr fun mixed coerced => ?_
  have divisors := allNumbers_stripZeros numbers'.simplest stripped strips
  have entries : AllNumbers (mixed.take dividend.simplest.length) := fun c member =>
    isNumber_coerceDecimals (List.forall_mem_append.mpr ⟨numbers.simplest, divisors⟩) mixed coerced
      c (List.mem_of_mem_take member)
  have zero : AllNumbers [.int 0] := by simp [AllNumbers]
  split
  next => exact yields_error _
  next lead lower _ =>
    unfold divideBy
    split
    next =>
      refine yields_ok.mpr ⟨zero, ?_⟩
      dsimp only
      split
      next => exact zero
      next => exact entries
    next =>
      split
      next =>
        exact yields_bind_iff.mpr fun quotient divided =>
          yields_ok.mpr ⟨.mapM (givesNumber_quo · lead) quotient divided, zero⟩
      next => exact allNumbers_divideRow lead lower _ entries

end Coefficients

namespace Poly

open Coefficients

theorem givesNumber_fallingProduct {c : Value} (number : c.isNumber = true) (factor : Int)
    (count : Nat) : GivesNumber (fallingProduct c factor count) := by
  induction count generalizing c factor with
  | zero => exact yields_ok.mpr number
  | succ count ih =>
    exact yields_bind_iff.mpr fun product multiplied =>
      ih (givesNumber_mul number (isNumber_int factor) product multiplied) (factor - 1)

theorem allNumbers_differentiate (order : Nat) (power : Int) {cs : Coefficients}
    (numbers : cs.AllNumbers) : Yields AllNumbers (differentiate order power cs) := by
  induction cs generalizing power with
  | nil => exact yields_ok.mpr numbers
  | cons c cs ih =>
    obtain ⟨first, others⟩ := List.forall_mem_cons.mp numbers
    refine yields_bind_iff.mpr fun d multiplied => yields_bind_iff.mpr fun ds computed => ?_
    exact yields_ok.mpr (List.forall_mem_cons.mpr
      ⟨givesNumber_fallingProduct first power order d multiplied, ih (power - 1) others ds computed⟩)

end Poly

end ExactRoots
