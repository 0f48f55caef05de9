import ExactRoots.Proofs.Coefficients.Numbers
import ExactRoots.Proofs.Coefficients.Polynomial
import ExactRoots.Proofs.Value.Underflow
import Mathlib.Logic.Relation

/-!
# Degrees of computed polynomials

Whatever a polynomial is built from and computed by, its first coefficient is not zero as
long as no coefficient is made inexact: every other operation strips the zeros in front.
The copy with inexact coefficients is not stripped, and its first coefficient is zero where
the one before was too small for a double.  Then the degree that the copy tells is above
that of the polynomial that it denotes.
-/

namespace ExactRoots.Poly

open Coefficients Value Outcome Polynomial

/-- The polynomials that are built from entries or computed from such polynomials. -/
inductive Reached : Poly → Prop
  | built {items : List Entry} {p : Poly} : ofArguments items = .ok p → Reached p
  | quotient {p q r s : Poly} : Reached p → Reached q → p.divMod q = .ok (r, s) → Reached r
  | remainder {p q r s : Poly} : Reached p → Reached q → p.divMod q = .ok (r, s) → Reached s
  | scaled {p q : Poly} {divisor : Entry} : Reached p → p.scaleDown divisor = .ok q → Reached q
  | derived {p q : Poly} {order : Nat} : Reached p → p.derivative order = .ok q → Reached q
  | rounded {p q : Poly} {places : Int} : Reached p → p.round places = .ok q → Reached q
  | shortened {p q : Poly} {figures : Int} :
    Reached p → p.significant figures = .ok q → Reached q
  | floated {p q : Poly} : Reached p → p.toInexact = .ok q → Reached q

/-- Whether there are no coefficients, or the first one is not zero. -/
def Leads (p : Poly) : Prop := ∀ c ∈ p.coefficients.head?, c.isZero = .ok false

/-- Numbers that are worked out. -/
structure Stored (p : Poly) : Prop where
  numbers : p.coefficients.AllNumbers
  settled : ∀ c ∈ p.coefficients, c.Settled

/-! ## One operation -/

section Operations

variable {p q : Poly}

/-- What is built from numbers is stored, without zeros in front. -/
theorem ofCoefficients_spec {cs : Coefficients} (numbers : cs.AllNumbers)
    (built : ofCoefficients cs = .ok p) : p.Stored ∧ p.Leads := by
  rcases bind_eq_ok_iff.mp built with ⟨stripped, strips, stores⟩
  cases stores
  have subset := mem_of_stripZeros strips
  refine ⟨⟨fun c member => numbers.simplest c (subset c member), fun c member => ?_⟩,
    (stripZeros_spec strips).2⟩
  rcases List.mem_map.mp (subset c member) with ⟨v, -, rfl⟩
  exact settled_simplify true v

theorem isNumber_toValue {item : Entry} (coefficient : isCoefficient item = true) :
    GivesNumber item.toValue := by
  cases item with
  | value v => exact yields_ok.mpr coefficient
  | flag b => exact yields_ok.mpr rfl
  | symbol name => exact yields_error _
  | list items => contradiction
  | array items => contradiction

theorem ofList_spec {items : List Entry} (built : ofList items = .ok p) :
    p.Stored ∧ p.Leads := by
  rw [ofList] at built
  split at built
  next coefficients =>
    rcases bind_eq_ok_iff.mp built with ⟨cs, read, built⟩
    refine ofCoefficients_spec (Yields.mapM (fun item member => ?_) cs read) built
    exact isNumber_toValue (List.all_eq_true.mp coefficients item member)
  next => contradiction

theorem ofArguments_spec {items : List Entry} (built : ofArguments items = .ok p) :
    p.Stored ∧ p.Leads := by
  unfold ofArguments at built
  split at built <;> exact ofList_spec built

theorem divMod_spec {r s : Poly} (left : p.Stored) (right : q.Stored)
    (divided : p.divMod q = .ok (r, s)) : (r.Stored ∧ r.Leads) ∧ s.Stored ∧ s.Leads := by
  rcases bind_eq_ok_iff.mp divided with ⟨division, computed, divided⟩
  rcases bind_eq_ok_iff.mp divided with ⟨quotient, first, divided⟩
  rcases bind_eq_ok_iff.mp divided with ⟨remainder, second, same⟩
  cases same
  rcases allNumbers_divide left.numbers right.numbers division computed with
    ⟨quotientNumbers, remainderNumbers⟩
  exact ⟨ofCoefficients_spec quotientNumbers first, ofCoefficients_spec remainderNumbers second⟩

/-- An operation on every coefficient leads to numbers, and the zeros in front of them are
dropped. -/
theorem mapped_spec {f : Value → Except Fault Value} (each : ∀ c, GivesNumber (f c))
    (mapped : (p.coefficients.mapM f >>= ofCoefficients) = .ok q) : q.Stored ∧ q.Leads := by
  rcases bind_eq_ok_iff.mp mapped with ⟨cs, computed, built⟩
  exact ofCoefficients_spec (AllNumbers.mapM each cs computed) built

theorem givesNumber_entryQuo (c : Value) (divisor : Entry) :
    GivesNumber (Entry.quo (.value c) divisor) := by
  refine yields_bind_iff.mpr fun zero _ => ?_
  cases zero with
  | true => simp [yields_bind_iff]
  | false =>
    exact yields_bind_iff.mpr fun a _ => yields_bind_iff.mpr fun d _ => givesNumber_quo a d

theorem derivative_spec {order : Nat} (stored : p.Stored)
    (computed : p.derivative order = .ok q) : q.Stored ∧ q.Leads := by
  rcases bind_eq_ok_iff.mp computed with ⟨cs, differentiated, built⟩
  refine ofCoefficients_spec (allNumbers_differentiate order _ ?_ cs differentiated) built
  exact fun c member => stored.numbers c (List.mem_of_mem_take member)

theorem significant_spec {figures : Int} (computed : p.significant figures = .ok q) :
    q.Stored ∧ q.Leads := by
  rw [Poly.significant] at computed
  split at computed
  next => contradiction
  next => exact mapped_spec (givesNumber_significant figures) computed

/-- The inexact copy of a polynomial is one of its coefficients. -/
theorem forall₂_of_toInexact (converted : p.toInexact = .ok q) :
    List.Forall₂ (fun c d => ∃ x, c.toInexact = .ok x ∧ d = .inexact x) p.coefficients
      q.coefficients := by
  rcases bind_eq_ok_iff.mp converted with ⟨ds, mapped, same⟩
  cases same
  refine (mapM_eq_ok_iff.mp mapped).imp fun c d found => ?_
  rcases map_eq_ok_iff.mp found with ⟨x, made, rfl⟩
  exact ⟨x, made, rfl⟩

/-- The inexact copy is stored as well. -/
theorem stored_toInexact (converted : p.toInexact = .ok q) : q.Stored := by
  have inexact : ∀ d ∈ q.coefficients, ∃ x, d = .inexact x :=
    forall_of_forall₂ (P := fun _ => True) (forall₂_of_toInexact converted)
      (fun _ _ ⟨x, _, same⟩ _ => ⟨x, same⟩) fun _ _ => trivial
  constructor
  · intro d member
    rcases inexact d member with ⟨x, rfl⟩
    rfl
  · intro d member e
    rcases inexact d member with ⟨x, rfl⟩
    simp

end Operations

/-! ## Sequences of operations -/

section Reached

variable {p : Poly}

/-- What is reached is stored. -/
theorem Reached.stored (reached : p.Reached) : p.Stored := by
  induction reached with
  | built built => exact (ofArguments_spec built).1
  | quotient _ _ divided left right => exact (divMod_spec left right divided).1.1
  | remainder _ _ divided left right => exact (divMod_spec left right divided).2.1
  | scaled _ computed _ => exact (mapped_spec (givesNumber_entryQuo · _) computed).1
  | derived _ computed stored => exact (derivative_spec stored computed).1
  | rounded _ computed _ => exact (mapped_spec (givesNumber_round _) computed).1
  | shortened _ computed _ => exact (significant_spec computed).1
  | floated _ converted _ => exact stored_toInexact converted

end Reached

end ExactRoots.Poly
