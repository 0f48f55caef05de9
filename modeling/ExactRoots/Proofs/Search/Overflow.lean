import ExactRoots.Proofs.Search.Run

/-!
# Faults that the settings cause

A function that gives numbers, and fails only for results that are too large or divisors
that are zero, leads its searches to no other faults.  What is left besides a stall comes
from computations with the settings that no search guards: the square of the tolerance
and the width of a range may overflow, and the counts of the budget may be too long to be
written in the report of a stall.
-/

namespace ExactRoots

open Outcome

/-- Whether the square of the tolerance and the widths of the ranges are finite. -/
structure Settings.Moderate (s : Settings) : Prop where
  tolerance : s.tolerance.isFinite = true → (s.tolerance * s.tolerance).isInf = false
  realRange : ∀ low high, s.realRange = some (low, high) → (high - low).isFinite = true
  imagRange : ∀ low high, s.imagRange = some (low, high) → (high - low).isFinite = true

/-- Whether the counts of the budget have few enough digits to be written. -/
structure Settings.Countable (s : Settings) : Prop where
  loops : Short s.loops
  iterations : Short s.iterations

namespace Search

/-- Whether a function gives a number that is no decimal at every inexact point, unless a
result is too large or a divisor zero. -/
def Numeric (f : ScalarFunction) : Prop := ∀ x : Inexact, Value.GivesPlain (f (.inexact x))

/-- Whether a fault is an overflow that the settings cause. -/
def OverflowOf (s : Settings) (fault : Fault) : Prop := fault = .overflow ∧ ¬ s.Moderate

/-- Whether a fault is one that the settings cause: an overflow, or a count that is too long to
be written. -/
def CausedBy (s : Settings) (fault : Fault) : Prop :=
  OverflowOf s fault ∨ fault = .malformed ∧ ¬ s.Countable

/-! ## Functions that are reduced from others -/

section Function

variable {f g : ScalarFunction}

/-- The difference at an inexact number, with the width of its step. -/
theorem difference_inexact (f : ScalarFunction) (scale : Float) (x : Inexact) :
    difference f scale (.inexact x) = (do
      let delta : Value := .inexact
        (if (x.mul (.real scale)).isZero then .real Binary64.epsilon else x.mul (.real scale))
      let above ← f (← (Value.inexact x).add delta)
      let below ← f (← (Value.inexact x).sub delta)
      (← above.sub below).div (← delta.mul (.int 2))) := by
  have product : (Value.inexact x).mul (.float scale) = .ok (.inexact (x.mul (.real scale))) := rfl
  have checked : (Value.inexact (x.mul (.real scale))).isZero =
    .ok (x.mul (.real scale)).isZero := rfl
  rw [difference, product, ok_bind, checked, ok_bind]
  split <;> rfl

/-- The value of such a function is never missing. -/
theorem exists_evaluate (numeric : Numeric f) (x : Inexact) : ∃ y, evaluate f x = .ok y := by
  have arithmetic : FaultsIn (·.isArithmetic = true) (f (.inexact x) >>= Value.toInexact) := by
    rw [faultsIn_bind_iff]
    constructor
    · exact (numeric x).1
    · intro v found
      exact Value.arithmetic_toInexact ((numeric x).2 v found)
  unfold evaluate evaluateAt
  split
  next y _ => exact ⟨y, rfl⟩
  next fault failed => exact ⟨_, if_pos (arithmetic fault failed)⟩

end Function

/-! ## Settings -/

theorem overflowOf_squaredTolerance (s : Settings) :
    FaultsIn (OverflowOf s) (squaredTolerance s) := by
  unfold squaredTolerance
  rw [faultsIn_ite_iff]
  constructor
  · intro infinite
    rw [faultsIn_error]
    constructor
    · rfl
    · intro moderate
      rw [Bool.and_eq_true] at infinite
      rw [moderate.tolerance infinite.2] at infinite
      exact Bool.false_ne_true infinite.1
  · simp

theorem exists_uniform {low high : Float} (finite : (high - low).isFinite = true) (g : Generator) :
    ∃ x g', g.uniform low high = .ok (x, g') := by
  unfold Generator.uniform
  rw [if_pos finite]
  exact ⟨_, _, rfl⟩

theorem exists_randomFactor (inPlane : Bool) (g : Generator) :
    ∃ x g', randomFactor inPlane g = .ok (x, g') := by
  have finite : ((1.0 : Float) - -1.0).isFinite = true := by decide
  rcases exists_uniform finite g with ⟨re, g', drawn⟩
  rcases exists_uniform finite g' with ⟨im, g'', drawn'⟩
  rw [randomFactor, drawn, ok_bind]
  cases inPlane with
  | true =>
    dsimp only
    rw [if_pos rfl, drawn']
    exact ⟨_, _, rfl⟩
  | false => exact ⟨_, _, rfl⟩

/-- A sample from a set range, or from the standard window, fails only where the range is too
wide. -/
theorem overflowOf_uniform {s : Settings} {range : Option (Float × Float)}
    (moderate : s.Moderate → ∀ low high, range = some (low, high) → (high - low).isFinite = true)
    (g : Generator) :
    FaultsIn (OverflowOf s)
      (g.uniform (range.getD standardWindow).1 (range.getD standardWindow).2) := by
  unfold Generator.uniform
  rw [faultsIn_ite_iff]
  constructor
  · simp
  · intro wide
    rw [faultsIn_error]
    constructor
    · rfl
    · intro holds
      apply wide
      rcases range with _ | ⟨low, high⟩
      · decide
      · exact moderate holds low high rfl

theorem overflowOf_perturb (s : Settings) (inPlane : Bool) (x : Inexact) (g : Generator) :
    FaultsIn (OverflowOf s) (perturb s inPlane x g) := by
  unfold perturb
  rw [faultsIn_ite_iff]
  constructor
  · intro _
    rcases exists_randomFactor inPlane g with ⟨factor, g', drawn⟩
    rw [drawn]
    exact faultsIn_ok _
  · intro _
    have real := @overflowOf_uniform s s.realRange Settings.Moderate.realRange
    have imaginary := @overflowOf_uniform s s.imagRange Settings.Moderate.imagRange
    simp [windowSample, real, imaginary]

theorem causedBy_of_overflowOf {α : Type} {s : Settings} {outcome : Except Fault α}
    (overflows : FaultsIn (OverflowOf s) outcome) : FaultsIn (CausedBy s) outcome :=
  overflows.mono fun _ => .inl

theorem causedBy_writeInt {s : Settings} {count : Nat} (counted : s.Countable → Short count) :
    FaultsIn (CausedBy s) (writeInt count) := by
  intro fault failed
  rcases (writtenIf_writeInt count).faults fault failed with ⟨rfl, long⟩
  exact .inr ⟨rfl, fun countable => long (counted countable)⟩

/-- A stall is reported unless a count is too long. -/
theorem reports_causedBy (s : Settings) : Reports s (CausedBy s) := by
  intro state displacement
  simp [stallAt, causedBy_writeInt Settings.Countable.loops,
    causedBy_writeInt Settings.Countable.iterations]

/-! ## Whole searches -/

theorem givesPlain_hornerFrom {x acc : Value} {cs : Coefficients} (point : x.PlainNumber)
    (start : acc.PlainNumber) (plain : ∀ c ∈ cs, c.PlainNumber) :
    Value.GivesPlain (Coefficients.hornerFrom x acc cs) := by
  induction cs generalizing acc with
  | nil => exact ends_ok.mpr start
  | cons c cs ih =>
    rw [List.forall_mem_cons] at plain
    apply (Value.givesPlain_mul start point).andThen
    intro product plain'
    apply (Value.givesPlain_add plain' plain.1).andThen
    intro sum plain'
    exact ih plain' plain.2

theorem plainNumber_unsettled {v : Value} (plain : v.PlainNumber) : v.unsettled.PlainNumber := by
  cases v with
  | exact re im nonreal => exact Value.plainNumber_formal _
  | _ => exact plain

/-- A polynomial whose coefficients are numbers, and none a decimal, is such a function. -/
theorem numeric_horner {cs : Coefficients} (plain : ∀ c ∈ cs, c.PlainNumber) :
    Numeric cs.horner := by
  intro x
  unfold Coefficients.horner
  split
  · apply givesPlain_hornerFrom (Value.plainNumber_inexact x) (Value.plainNumber_int 0)
    intro c member
    rcases List.mem_map.mp member with ⟨d, entry, rfl⟩
    exact plainNumber_unsettled (plain d entry)
  · exact givesPlain_hornerFrom (Value.plainNumber_inexact x) (Value.plainNumber_int 0) plain

theorem moderate_default : ({} : Settings).Moderate where
  tolerance := by decide
  realRange := by simp
  imagRange := by simp

theorem countable_default : ({} : Settings).Countable where
  loops := short_of_le (by decide : 3 ≤ 10 ^ 1) (by decide)
  iterations := short_of_le (by decide : 150 ≤ 10 ^ 3) (by decide)

end Search

end ExactRoots
