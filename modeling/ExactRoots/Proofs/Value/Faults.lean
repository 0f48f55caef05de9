import ExactRoots.Proofs.Value.Text
import ExactRoots.Value.Recovery
import ExactRoots.Value.Rounding
import ExactRoots.Value.SquareRoot

/-!
# Faults of operations on values

Operations on values raise faults of arithmetic, and refuse operands of the
wrong kind or without a usable value.  They never raise a fault of the domain,
such as that of a search that ran out of its budget.
-/

namespace ExactRoots

open Outcome

/-- The faults that operations on values raise. -/
inductive Fault.IsOperational : Fault → Prop
  | divisionByZero : IsOperational .divisionByZero
  | zeroDivisor (numerator : String) : IsOperational (.zeroDivisor numerator)
  | overflow : IsOperational .overflow
  | unsupported : IsOperational .unsupported
  | malformed : IsOperational .malformed
  | decimalInvalid : IsOperational .decimalInvalid
  | decimalOverflow : IsOperational .decimalOverflow
  | decimalDivisionByZero : IsOperational .decimalDivisionByZero

attribute [simp] Fault.IsOperational.divisionByZero Fault.IsOperational.zeroDivisor
  Fault.IsOperational.overflow Fault.IsOperational.unsupported Fault.IsOperational.malformed
  Fault.IsOperational.decimalInvalid Fault.IsOperational.decimalOverflow
  Fault.IsOperational.decimalDivisionByZero

/-- Whether all faults of a computation come from operations on values. -/
abbrev Operational {α : Type} (outcome : Except Fault α) : Prop :=
  FaultsIn Fault.IsOperational outcome

/-- A number that is too long to be written is refused as an operand without a usable value. -/
theorem WrittenIf.operational {α : Type} {legible : Prop} {text : Except Fault α}
    (written : WrittenIf legible text) : Operational text := by
  intro fault failed
  rcases written.faults fault failed with ⟨rfl, -⟩
  exact .malformed

@[simp]
theorem operational_writeInt (n : Int) : Operational (writeInt n) :=
  (writtenIf_writeInt n).operational

@[simp]
theorem operational_signal (signal : DecimalSignal) : signal.fault.IsOperational := by
  cases signal <;> simp [DecimalSignal.fault]

@[simp]
theorem Inexact.operational_ofRat (q : Rat) : Operational (Inexact.ofRat q) := by
  unfold Inexact.ofRat
  split <;> simp

namespace Value

@[simp]
theorem operational_ofDecimal (result : Except DecimalSignal Decimal) :
    Operational (ofDecimal result) := by
  cases result <;> simp [ofDecimal]

/-- Rules that only raise faults of operations do so at all operands. -/
theorem operational_combine {rules : Rules}
    (integers : ∀ m n, Operational (rules.integers m n))
    (rationals : ∀ p q, Operational (rules.rationals p q))
    (gaussians : ∀ u v, Operational (rules.gaussians u v))
    (inexacts : ∀ x y, Operational (rules.inexacts x y))
    (formals : ∀ d e, Operational (rules.formals d e)) (a b : Value) :
    Operational (rules.combine a b) := by
  unfold Rules.combine
  split <;> simp [integers, rationals, gaussians, inexacts]
  split <;> simp [formals]

@[simp]
theorem operational_add (a b : Value) : Operational (a.add b) := by
  unfold add
  split
  next => simp
  next =>
    apply operational_combine <;> simp [addRules, Value.ok, okFormal]

@[simp]
theorem operational_sub (a b : Value) : Operational (a.sub b) := by
  apply operational_combine <;> simp [subRules, Value.ok, okFormal]

@[simp]
theorem operational_mul (a b : Value) : Operational (a.mul b) := by
  unfold mul
  split
  next => simp
  next => simp
  next =>
    apply operational_combine <;> simp [mulRules, Value.ok, okFormal]

@[simp]
theorem operational_div (a b : Value) : Operational (a.div b) := by
  apply operational_combine
  · intro m n
    simp only [divRules, integerQuotient]
    split <;> simp
  · simp [divRules]
  · simp [divRules]
  · intro x y
    simp only [divRules, inexactQuotient]
    split <;> simp [Value.ok]
  · intro d e
    simp only [divRules]
    split <;> simp [okFormal]

@[simp]
theorem operational_neg (a : Value) : Operational a.neg := by
  cases a <;> simp [neg, Value.ok, okFormal]

@[simp]
theorem operational_isZero (a : Value) : Operational a.isZero := by
  cases a <;> simp [isZero]

@[simp]
theorem operational_isBelowZero (a : Value) : Operational a.isBelowZero := by
  unfold isBelowZero
  split <;> simp

@[simp]
theorem operational_equals (a b : Value) : Operational (a.equals b) := by
  unfold equals
  split <;> simp

@[simp]
theorem operational_toFloat (a : Value) : Operational a.toFloat := by
  unfold toFloat
  split <;> (try split) <;> simp

@[simp]
theorem operational_toInexact (a : Value) : Operational a.toInexact := by
  unfold toInexact
  split <;> simp

@[simp]
theorem operational_magnitude (a : Value) : Operational a.magnitude := by
  simp only [magnitude, faultsIn_bind_iff, operational_toInexact, true_and]
  intro x _
  split <;> simp

@[simp]
theorem operational_makeComplex (a b : Value) : Operational (makeComplex a b) := by
  simp only [makeComplex, faultsIn_bind_iff, operational_isZero, true_and]
  intro zero _
  split
  next => simp
  next => split <;> simp

@[simp]
theorem operational_display (v : Value) : Operational v.display :=
  (writtenIf_display v).operational

@[simp]
theorem operational_listText (vs : List Value) : Operational (listText vs) :=
  (writtenIf_listText vs).operational

@[simp]
theorem operational_quo (a b : Value) : Operational (a.quo b) := by
  simp only [quo, faultsIn_bind_iff, operational_isZero, true_and]
  intro zero _
  split
  next => simp
  next => split <;> simp

@[simp]
theorem operational_coerceDecimals (vs : List Value) : Operational (coerceDecimals vs) := by
  simp only [coerceDecimals, faultsIn_ite_iff, faultsIn_ok, implies_true, true_and]
  intro _
  exact FaultsIn.mapM fun v _ => by simp

/-! ## Rounding and recovering -/

@[simp]
theorem operational_roundReal (places : Int) (v : Value) : Operational (roundReal places v) := by
  unfold roundReal
  split <;> simp

@[simp]
theorem operational_round (places : Int) (v : Value) : Operational (round places v) := by
  simp [round]

@[simp]
theorem operational_denominatorBound (bound : Int) : Operational (denominatorBound bound) := by
  simp [denominatorBound]

@[simp]
theorem operational_approximated? (v : Value) : Operational v.approximated? := by
  unfold approximated?
  split <;> (try split) <;> simp

@[simp]
theorem operational_recoverReal (bound places : Int) (v : Value) :
    Operational (recoverReal bound places v) := by
  simp only [recoverReal, faultsIn_bind_iff, operational_approximated?, true_and]
  intro approximated _
  split <;> simp

@[simp]
theorem operational_recover (bound places : Int) (v : Value) :
    Operational (recover bound places v) := by
  simp [recover]

@[simp]
theorem operational_nearestReal (bound : Int) (v : Value) :
    Operational (nearestReal bound v) := by
  unfold nearestReal
  split
  next x =>
    split
    next => simp
    next =>
      refine faultsIn_error.mpr ?_
      split <;> simp
  next => simp

@[simp]
theorem operational_nearestRational (bound : Int) (v : Value) :
    Operational (nearestRational bound v) := by
  simp [nearestRational]

end Value

end ExactRoots
