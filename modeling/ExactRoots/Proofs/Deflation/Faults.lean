import ExactRoots.Deflation.Roots
import ExactRoots.Proofs.Search.Faults

/-!
# Faults of a deflation

What a deflation runs into comes from operations on values, from a search that
stalls, from a division or a closing formula that has no answer, or from a
remainder that is too large.  Apart from its own check, nothing reports that a
root has not reduced the degree.
-/

namespace ExactRoots

open Outcome

/-- Whether a fault is another one than that of a degree which is not reduced. -/
def Fault.OtherThanDegree (fault : Fault) : Prop :=
  ∀ root left degree, fault ≠ .degreeNotReduced root left degree

/-- Whether a computation reports no degree that is not reduced. -/
abbrev ReducesDegree {α : Type} (outcome : Except Fault α) : Prop :=
  FaultsIn Fault.OtherThanDegree outcome

theorem reducesDegree_of_operational {α : Type} {outcome : Except Fault α}
    (operational : Operational outcome) : ReducesDegree outcome := by
  intro fault failed root left degree same
  have raised := operational fault failed
  rw [same] at raised
  cases raised

namespace Coefficients

@[simp]
theorem operational_stripZeros (cs : Coefficients) : Operational cs.stripZeros := by
  induction cs with
  | nil => simp [stripZeros]
  | cons c cs ih => simp [stripZeros, ih]

@[simp]
theorem operational_hornerFrom (x acc : Value) (cs : Coefficients) :
    Operational (hornerFrom x acc cs) := by
  induction cs generalizing acc with
  | nil => simp [hornerFrom]
  | cons c cs ih => simp [hornerFrom, ih]

@[simp]
theorem operational_horner (cs : Coefficients) (x : Value) : Operational (cs.horner x) := by
  simp [horner]

@[simp]
theorem operational_subtractMultiple (q : Value) (lower row : Coefficients) :
    Operational (subtractMultiple q lower row) := by
  induction lower generalizing row with
  | nil => simp [subtractMultiple]
  | cons d ds ih =>
    cases row with
    | nil => simp [subtractMultiple]
    | cons c cs => simp [subtractMultiple, ih]

@[simp]
theorem operational_divideRow (lead : Value) (lower : Coefficients) (steps : Nat)
    (row : Coefficients) : Operational (divideRow lead lower steps row) := by
  induction steps generalizing row with
  | zero => simp [divideRow]
  | succ steps ih =>
    cases row with
    | nil => simp [divideRow]
    | cons c cs => simp [divideRow, ih]

@[simp]
theorem operational_divideBy (dividend : Coefficients) (lead : Value) (lower : Coefficients) :
    Operational (divideBy dividend lead lower) := by
  have divided : Operational (dividend.mapM (·.quo lead)) := FaultsIn.mapM fun c _ => by simp
  simp [divideBy, divided]

theorem reducesDegree_divide (dividend divisor : Coefficients) :
    ReducesDegree (dividend.divide divisor) := by
  simp only [divide, faultsIn_bind_iff]
  constructor
  · exact reducesDegree_of_operational (by simp)
  · intro stripped _
    constructor
    · exact reducesDegree_of_operational (by simp)
    · intro mixed _
      split
      next => simp [Fault.OtherThanDegree]
      next => exact reducesDegree_of_operational (by simp)

end Coefficients

/-! ## Closed formulas -/

namespace Value

@[simp]
theorem operational_floatRoot (q : Rat) : Operational (floatRoot q) := by
  unfold floatRoot
  split
  next => simp
  next =>
    dsimp only
    split
    next => simp
    next => split <;> simp

@[simp]
theorem operational_rationalRoot (q : Rat) : Operational (rationalRoot q) := by
  unfold rationalRoot
  split <;> simp

@[simp]
theorem reducesDegree_nonnegRoot (v : Value) : ReducesDegree (nonnegRoot v) := by
  unfold nonnegRoot
  split <;> simp [reducesDegree_of_operational, Fault.OtherThanDegree]

@[simp]
theorem reducesDegree_realRoot (v : Value) : ReducesDegree (realRoot v) := by
  unfold realRoot
  split <;> simp [reducesDegree_of_operational]

theorem reducesDegree_sqrt (v : Value) : ReducesDegree v.sqrt := by
  simp [sqrt, complexRoot, reducesDegree_of_operational]

end Value

theorem operational_quadraticFormula (a b root : Value) :
    Operational (quadraticFormula a b root) := by
  simp [quadraticFormula]

theorem operational_discriminant (a b c : Value) : Operational (discriminant a b c) := by
  simp [discriminant]

theorem reducesDegree_solveQuadratic (a b c : Value) : ReducesDegree (solveQuadratic a b c) := by
  have formula (a b root : Value) : ReducesDegree (quadraticFormula a b root) :=
    reducesDegree_of_operational (operational_quadraticFormula a b root)
  have unsupported : Fault.unsupported.OtherThanDegree := by simp [Fault.OtherThanDegree]
  simp only [solveQuadratic, faultsIn_bind_iff]
  constructor
  · exact reducesDegree_of_operational (by simp)
  · intro coerced _
    split
    next =>
      simp only [faultsIn_bind_iff, faultsIn_ite_iff]
      constructor
      · exact reducesDegree_of_operational (by simp)
      · intro flat _
        constructor
        · simp [reducesDegree_of_operational, Fault.OtherThanDegree]
        · intro _
          refine ⟨reducesDegree_of_operational (operational_discriminant _ _ _), fun d _ =>
            ⟨Value.reducesDegree_sqrt d, fun root _ => ⟨fun _ => ?_, fun _ => formula _ _ _⟩⟩⟩
          constructor
          · exact reducesDegree_of_operational (by simp)
          · intro coerced _
            split
            next => exact formula _ _ _
            next => exact faultsIn_error.mpr unsupported
    next => exact faultsIn_error.mpr unsupported

namespace Deflation

/-! ## One step -/

@[simp]
theorem operational_residual (cs : Coefficients) (x : Value) : Operational (residual cs x) := by
  simp [residual, Coefficients.evaluate]

@[simp]
theorem operational_candidates (s : Settings) (exact : Bool) (root : Value) :
    Operational (candidates s exact root) := by
  simp [candidates]

@[simp]
theorem operational_choose (cs : Coefficients) (choice : Choice) (rest : List Value) :
    Operational (choose cs choice rest) := by
  induction rest generalizing choice with
  | nil => simp [choose]
  | cons candidate rest ih => simp [choose, ih]

@[simp]
theorem operational_snapRoot (s : Settings) (cs : Coefficients) (exact : Bool) (root : Value) :
    Operational (snapRoot s cs exact root) := by
  simp [snapRoot]

@[simp]
theorem operational_greatest (least : Float) (cs : Coefficients) :
    Operational (greatest least cs) := by
  induction cs generalizing least with
  | nil => simp [greatest]
  | cons c cs ih => simp [greatest, ih]

@[simp]
theorem operational_exceeds (limit : Float) (cs : Coefficients) :
    Operational (exceeds limit cs) := by
  induction cs with
  | nil => simp [exceeds]
  | cons c cs ih => simp [exceeds, ih]

/-- A quotient that is shorter than the polynomial passes the check of degrees. -/
theorem reducesDegree_check {s : Settings} {current quotient remainder : Coefficients}
    {root : Value} (shorter : quotient.length < current.length) :
    ReducesDegree (check s current quotient remainder root) := by
  have limited : Operational (remainderLimit s current) := by simp [remainderLimit]
  unfold check
  refine faultsIn_bind_iff.mpr ⟨reducesDegree_of_operational limited, ?_⟩
  intro limit _
  rw [dif_pos shorter]
  refine faultsIn_bind_iff.mpr ⟨reducesDegree_of_operational (by simp), ?_⟩
  intro exceeded _
  cases exceeded with
  | false => exact faultsIn_ok _
  | true =>
    simp [reducesDegree_of_operational, Fault.OtherThanDegree]

/-- A search for a root of a polynomial reports no degree. -/
theorem reducesDegree_findOneRoot (s : Settings) (cs : Coefficients) (depth : Int)
    (guess : Value) : ReducesDegree (findOneRoot s cs.horner depth guess) := by
  have own (start : Inexact) : ReducesDegree (Search.solve s depth cs.horner start) := by
    intro fault failed root left degree same
    subst same
    rcases Search.raises_solve depth start _ failed with (operational | ⟨v, raised⟩) | ⟨stall, same⟩
    · cases operational
    · cases cs.operational_horner v _ raised
    · contradiction
  simp [findOneRoot, reducesDegree_of_operational, own]

theorem reducesDegree_findStep (s : Settings) (exact : Bool) (current : Coefficients) :
    ReducesDegree (findStep s exact current) := by
  have smoothed : Operational (current.mapM fun c => c.toInexact.map Value.inexact) :=
    FaultsIn.mapM fun c _ => by simp
  simp only [findStep, faultsIn_bind_iff]
  constructor
  · exact reducesDegree_of_operational smoothed
  · intro smooth _
    constructor
    · exact reducesDegree_findOneRoot s smooth 0 _
    · simp [reducesDegree_of_operational, Coefficients.reducesDegree_divide]

theorem reducesDegree_closing (current : Coefficients) : ReducesDegree (closing current) := by
  unfold closing
  split
  next => exact reducesDegree_solveQuadratic _ _ _
  next => simp [reducesDegree_of_operational]
  next => simp [Fault.OtherThanDegree]

theorem reducesDegree_sortRoots (found : List Value) : ReducesDegree (sortRoots found) := by
  have keyed : Operational (found.mapM fun v => do return (← sortKey v, v)) :=
    FaultsIn.mapM fun v _ => by simp [sortKey]
  simp only [sortRoots, faultsIn_bind_iff]
  exact ⟨reducesDegree_of_operational keyed, by simp⟩

theorem reducesDegree_prepare (cs : Coefficients) : ReducesDegree (prepare cs) := by
  have smoothed (current : Coefficients) :
      Operational (current.mapM fun c => c.toInexact.map Value.inexact) :=
    FaultsIn.mapM fun c _ => by simp
  simp only [prepare, faultsIn_bind_iff, faultsIn_ite_iff]
  constructor
  · exact reducesDegree_of_operational (by simp)
  · intro current _
    constructor
    · simp [Fault.OtherThanDegree]
    · simp [reducesDegree_of_operational, smoothed]

end Deflation

end ExactRoots
