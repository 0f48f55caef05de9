import ExactRoots.Proofs.Search.Overflow

/-!
# Real searches stay on the real line

From a double, and with no range of imaginary parts, a search for a zero of a function
that gives doubles at doubles never leaves the real line.  The arithmetic of doubles stays
among them, and so do the doubles beside one, rounding, random factors and samples; the
functions that a search reduces its own one to give doubles again.
-/

namespace ExactRoots

open Outcome

/-- Whether an inexact number is a double. -/
def Inexact.OnLine (x : Inexact) : Prop := ∃ a, x = .real a

namespace Search

/-- Whether the computation of a value gives a double, unless a result is too large or a divisor
zero. -/
def GivesDouble (outcome : Except Fault Value) : Prop :=
  Ends (·.isArithmetic = true) (fun v => ∃ y, v = .float y) outcome

/-- Whether a function gives a double at every double, unless a result is too large or a divisor
zero. -/
def OnLine (f : ScalarFunction) : Prop := ∀ x : Float, GivesDouble (f (.float x))

/-! ## Points -/

theorem onLine_toInexact_ofFloat {dropFloat : Bool} {x : Float} {y : Inexact}
    (converted : (Value.ofFloat dropFloat x).toInexact = .ok y) : y.OnLine := by
  unfold Value.ofFloat at converted
  split at converted
  next =>
    split at converted
    next n _ =>
      have whole : (Value.int n).toInexact = (Value.int n).toFloat.map .real := rfl
      rw [whole, map_eq_ok_iff] at converted
      rcases converted with ⟨a, -, rfl⟩
      exact ⟨a, rfl⟩
    next =>
      cases converted
      exact ⟨x, rfl⟩
  next =>
    cases converted
    exact ⟨x, rfl⟩

theorem closed_onLine : Closed Inexact.OnLine where
  real x := ⟨x, rfl⟩
  add := by
    rintro _ _ ⟨a, rfl⟩ ⟨b, rfl⟩
    exact ⟨a + b, rfl⟩
  sub := by
    rintro _ _ ⟨a, rfl⟩ ⟨b, rfl⟩
    exact ⟨a - b, rfl⟩
  mul := by
    rintro _ _ ⟨a, rfl⟩ ⟨b, rfl⟩
    exact ⟨a * b, rfl⟩
  div? := by
    rintro _ _ quotient ⟨a, rfl⟩ ⟨b, rfl⟩ divided
    unfold Inexact.div? at divided
    dsimp only at divided
    split at divided
    · contradiction
    · cases divided
      exact ⟨a / b, rfl⟩
  lattice := by
    rintro reach _ c ⟨a, rfl⟩ member
    rcases List.mem_map.mp member with ⟨b, -, rfl⟩
    exact ⟨b, rfl⟩
  toInexact := by
    rintro _ y ⟨a, rfl⟩ converted
    cases converted
    exact ⟨a, rfl⟩
  simplest := by
    rintro _ y ⟨a, rfl⟩ converted
    exact @onLine_toInexact_ofFloat true a y converted
  round := by
    rintro places _ y v ⟨a, rfl⟩ rounded converted
    rcases Value.exists_roundReal (Int.natCast_nonneg places) a with ⟨b, same⟩
    have double : Value.round places (.float a) = .ok (.float b) := same
    rw [double] at rounded
    cases rounded
    cases converted
    exact ⟨b, rfl⟩

/-- No random number is complex on the real line, unless a range of imaginary parts asks for it. -/
theorem onLine_perturb {s : Settings} (unset : s.imagRange = none) {x : Inexact} (point : x.OnLine)
    (g : Generator) : Ends (OverflowOf s) (fun drawn => drawn.1.OnLine) (perturb s false x g) := by
  constructor
  · exact overflowOf_perturb s false x g
  · intro drawn found
    unfold perturb at found
    split at found
    next =>
      rcases bind_eq_ok_iff.mp found with ⟨⟨factor, g'⟩, picked, found⟩
      rcases bind_eq_ok_iff.mp picked with ⟨⟨a, g''⟩, -, picked⟩
      cases picked
      cases found
      exact closed_onLine.add point
        (closed_onLine.mul (closed_onLine.mul point (closed_onLine.real _)) (closed_onLine.real a))
    next =>
      rcases bind_eq_ok_iff.mp found with ⟨⟨a, g'⟩, -, found⟩
      rw [unset] at found
      cases found
      exact ⟨a, rfl⟩

/-! ## Functions -/

section Function

variable {f g : ScalarFunction}

theorem onLine_evaluate (line : OnLine f) {P : Fault → Prop} {x : Inexact} (point : x.OnLine) :
    Ends P Inexact.OnLine (evaluate f x) := by
  rcases point with ⟨a, rfl⟩
  unfold evaluate evaluateAt
  rcases (line a).cases with ⟨v, found, y, rfl⟩ | ⟨fault, failed, arithmetic⟩
  · rw [found]
    exact ends_ok.mpr ⟨y, rfl⟩
  · rw [failed, error_bind]
    dsimp only
    rw [if_pos arithmetic]
    exact ends_ok.mpr ⟨_, rfl⟩

theorem givesDouble_float (x : Float) : GivesDouble (.ok (.float x)) := ends_ok.mpr ⟨x, rfl⟩

theorem givesDouble_div (a b : Float) : GivesDouble ((Value.float a).div (.float b)) := by
  have quotient : (Value.float a).div (.float b) = Value.inexactQuotient (.real a) (.real b) := rfl
  rw [quotient, Value.inexactQuotient]
  split
  next z divided =>
    rcases closed_onLine.div? ⟨a, rfl⟩ ⟨b, rfl⟩ divided with ⟨y, rfl⟩
    exact givesDouble_float y
  next => exact ends_error.mpr rfl

theorem onLine_difference (line : OnLine f) (scale : Float) : OnLine (difference f scale) := by
  intro x
  rw [difference_inexact]
  have width : (if ((Inexact.real x).mul (.real scale)).isZero then Inexact.real Binary64.epsilon
      else (Inexact.real x).mul (.real scale)).OnLine := by
    split <;> exact ⟨_, rfl⟩
  rcases width with ⟨delta, width⟩
  rw [width]
  apply (line (x + delta)).andThen
  rintro _ ⟨a, rfl⟩
  apply (line (x - delta)).andThen
  rintro _ ⟨b, rfl⟩
  exact givesDouble_div (a - b) (delta * 2.0)

theorem onLine_derivative (line : OnLine f) (scale : Float) (n : Nat) :
    OnLine (derivative f scale n) := by
  induction n with
  | zero => exact onLine_difference line scale
  | succ n ih => exact onLine_difference ih scale

theorem onLine_reduced (top : OnLine f) (bottom : OnLine g) : OnLine (reduced f g) := by
  intro x
  apply (top x).andThen
  rintro _ ⟨a, rfl⟩
  rw [Value.isZero_float, ok_bind]
  split
  · exact givesDouble_float a
  · apply (bottom x).andThen
    rintro _ ⟨b, rfl⟩
    exact givesDouble_div a b

theorem onLine_reducedFor (line : OnLine f) (gradient : Inexact) : OnLine (reducedFor f gradient) := by
  unfold reducedFor
  split
  · exact onLine_reduced (onLine_derivative line _ 0) (onLine_derivative line _ 1)
  · exact onLine_reduced line (onLine_derivative line _ 0)

end Function

/-! ## Searches -/

theorem confines_onLine {s : Settings} (unset : s.imagRange = none) {f : ScalarFunction}
    (line : OnLine f) : Confines s (CausedBy s) Inexact.OnLine f where
  closed := closed_onLine
  evaluate _ := onLine_evaluate line
  squaredTolerance := causedBy_of_overflowOf (overflowOf_squaredTolerance s)
  perturb := by
    rintro _ x g ⟨a, rfl⟩ point
    exact (onLine_perturb unset point g).weaken fun _ => .inl

/-- From a double, and with no range of imaginary parts, a search for a zero of a function that
gives doubles at doubles stays on the real line: in every state that it goes through, and in those
of every search that it nests, the estimate and the value are doubles, and every strategy leads
from such states to such states.  The search returns an integer or a double, or stalls at a
double, unless the settings cause another fault. -/
theorem findOneRoot_onLine {s : Settings} {f : ScalarFunction} (line : OnLine f)
    (unset : s.imagRange = none) (depth : Int) (guess : Float) :
    (∀ inner, Task.Starts s ⟨depth, f, .real guess⟩ inner →
      (∀ state, inner.Reaches s state → state.x.OnLine ∧ state.y.OnLine) ∧
      ∀ strategy ∈ inner.strategies s, ∀ state : State, state.Within Inexact.OnLine →
        Ends (CausedBy s) (State.Within Inexact.OnLine) (strategy state)) ∧
    Ends
      (fun fault => CausedBy s fault ∨
        ∃ stall, fault = .notConverged stall ∧ stall.x.OnLine ∧ stall.y.OnLine)
      (fun v => (∃ n, v = .int n) ∨ ∃ x, v = .float x) (findOneRoot s f depth (.float guess)) := by
  have reports := reports_causedBy s
  have confines := fun f (line : OnLine f) => confines_onLine unset line
  have inherits := fun f (line : OnLine f) => onLine_reducedFor line
  constructor
  · intro inner starts
    rcases starts.within reports confines inherits line ⟨guess, rfl⟩ with ⟨line, start⟩
    constructor
    · intro state reached
      have within := reached.within reports confines inherits line start
      exact ⟨within.x, within.y⟩
    · intro strategy listed state within
      exact staysWithin_strategies reports confines inherits line inner.depth listed within
  · apply (staysWithin_solve reports confines inherits closed_onLine depth f line (.real guess)
      ⟨guess, rfl⟩).andThen
    intro final within
    rcases within.x with ⟨x, place⟩
    rw [place]
    apply ends_ok.mpr
    have simplified : (Value.float x).simplest = Value.ofFloat true x := rfl
    rw [simplified, Value.ofFloat, if_pos rfl]
    split
    next n _ => exact .inl ⟨n, rfl⟩
    next => exact .inr ⟨x, rfl⟩

/-! ## Polynomials -/

/-- The double of a rational, unless it is too large. -/
theorem onLine_ofRat (q : Rat) :
    Ends (·.isArithmetic = true) Inexact.OnLine (Inexact.ofRat q) := by
  unfold Inexact.ofRat
  split
  next x _ => exact ends_ok.mpr ⟨x, rfl⟩
  next => exact ends_error.mpr rfl

/-- Whether a value is an integer, a fraction or a double. -/
def RealNumber (v : Value) : Prop := v.IsRational ∨ ∃ x, v = .float x

theorem givesDouble_add (x : Float) {c : Value} (real : RealNumber c) :
    GivesDouble ((Value.float x).add c) := by
  have rounded : ∀ q, GivesDouble (do Value.addRules.inexacts (.real x) (← Inexact.ofRat q)) := by
    intro q
    apply (onLine_ofRat q).andThen
    rintro _ ⟨y, rfl⟩
    exact givesDouble_float (x + y)
  rcases real with rational | ⟨y, rfl⟩
  · rcases rational.cases with ⟨n, rfl⟩ | ⟨q, rfl⟩
    · exact rounded n
    · exact rounded q
  · exact givesDouble_float (x + y)

theorem givesDouble_hornerFrom (x acc : Float) {cs : Coefficients} (real : ∀ c ∈ cs, RealNumber c) :
    GivesDouble (Coefficients.hornerFrom (.float x) (.float acc) cs) := by
  induction cs generalizing acc with
  | nil => exact givesDouble_float acc
  | cons c cs ih =>
    rw [List.forall_mem_cons] at real
    have product : (Value.float acc).mul (.float x) = .ok (.float (acc * x)) := rfl
    rw [Coefficients.hornerFrom, product, ok_bind]
    apply (givesDouble_add (acc * x) real.1).andThen
    rintro _ ⟨sum, rfl⟩
    exact ih sum real.2

/-- A polynomial with real coefficients, none a decimal, gives doubles at doubles. -/
theorem onLine_horner {c : Value} {cs : Coefficients} (real : ∀ d ∈ c :: cs, RealNumber d) :
    OnLine (Coefficients.horner (c :: cs)) := by
  intro x
  have settled : ∀ d ∈ Value.float x :: c :: cs, ¬ d.isFormal = true := by
    rw [List.forall_mem_cons]
    constructor
    · nofun
    · intro d member
      rcases real d member with rational | ⟨y, rfl⟩
      · rcases rational.cases with ⟨n, rfl⟩ | ⟨q, rfl⟩ <;> nofun
      · nofun
  have plain : Coefficients.isMixed (Value.float x :: c :: cs) = false := by
    rw [Coefficients.isMixed, List.any_eq_false.mpr settled, Bool.false_and]
  rw [Coefficients.horner, plain, if_neg Bool.false_ne_true, Coefficients.hornerFrom]
  rw [List.forall_mem_cons] at real
  have product : (Value.int 0).mul (.float x) =
      (do Value.mulRules.inexacts (← Inexact.ofRat (0 : Int)) (.real x)) := rfl
  have first : GivesDouble ((Value.int 0).mul (.float x)) := by
    rw [product]
    apply (onLine_ofRat _).andThen
    rintro _ ⟨zero, rfl⟩
    exact givesDouble_float (zero * x)
  apply first.andThen
  rintro _ ⟨acc, rfl⟩
  apply (givesDouble_add acc real.1).andThen
  rintro _ ⟨sum, rfl⟩
  exact givesDouble_hornerFrom x sum real.2

/-- A search for a root of the square plus one, which has none on the real line, stalls there or
returns a real number. -/
theorem findOneRoot_onLine_square :
    let f := Coefficients.horner [.int 1, .int 0, .int 1]
    OnLine f ∧ ({} : Settings).imagRange = none ∧
      ((∃ stall, findOneRoot {} f 0 (.float 0.5) = .error (.notConverged stall) ∧ stall.x.OnLine) ∨
        ∃ v, findOneRoot {} f 0 (.float 0.5) = .ok v ∧ ((∃ n, v = .int n) ∨ ∃ x, v = .float x)) := by
  intro f
  have line : OnLine f := onLine_horner (by simp [RealNumber])
  refine ⟨line, rfl, ?_⟩
  rcases (@findOneRoot_onLine {} f line rfl 0 0.5).2.cases with
    returned | ⟨fault, failed, (⟨-, immoderate⟩ | ⟨-, uncountable⟩) | ⟨stall, rfl, place, -⟩⟩
  · exact .inr returned
  · exact absurd moderate_default immoderate
  · exact absurd countable_default uncountable
  · exact .inl ⟨stall, failed, place⟩

end Search

end ExactRoots
