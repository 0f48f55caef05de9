import ExactRoots.Proofs.Binary64.Integer
import ExactRoots.Proofs.Decimal.Nearest
import ExactRoots.Proofs.Value.Recovery

/-!
# Recovering fractions from doubles and decimals

A double or a decimal is replaced by a fraction exactly when some fraction of bounded
denominator lies within one unit of the place asked for, and then by such a fraction.
A decimal that is too large for a double is left as it is, even if it is an integer.
-/

namespace ExactRoots.Value

open Outcome

/-- The rational that a finite double or decimal denotes. -/
def measure? : Value → Option Rat
  | .inexact (.real x) => Binary64.toRat? x
  | .decimal d => d.toRat?
  | _ => none

theorem measure?_eq_some_cases {v : Value} {q : Rat} (measured : v.measure? = some q) :
    (∃ x, v = .float x ∧ Binary64.toRat? x = some q) ∨
      ∃ s m e, v = .decimal (.finite s m e) ∧ (.finite s m e : Decimal).toRat? = some q := by
  cases v with
  | inexact x =>
    cases x with
    | real x => exact .inl ⟨x, rfl, measured⟩
    | complex re im => contradiction
  | decimal d =>
    cases d with
    | finite s m e => exact .inr ⟨s, m, e, rfl, measured⟩
    | _ => contradiction
  | _ => contradiction

/-- A real value of a kind that is recovered is in simplest form already. -/
theorem recover_of_measure? {v : Value} {q : Rat} (measured : v.measure? = some q)
    (bound places : Int) : v.tidy = v ∧ recover bound places v = recoverReal bound places v := by
  obtain ⟨x, rfl, -⟩ | ⟨s, m, e, rfl, -⟩ := measure?_eq_some_cases measured <;> exact ⟨rfl, rfl⟩

/-- What is too large for a double is not approximated. -/
theorem approximated?_eq {v : Value} {q : Rat} (measured : v.measure? = some q) :
    (|q| < Binary64.overflowThreshold → approximated? v = .ok (some q)) ∧
      (Binary64.overflowThreshold ≤ |q| →
        (∀ s m e, v = .decimal (.finite s m e) → m.log2 ≤ mostLength) →
        approximated? v = .ok none) := by
  obtain ⟨x, rfl, value⟩ | ⟨s, m, e, rfl, value⟩ := measure?_eq_some_cases measured
  · refine ⟨fun _ => congrArg Except.ok value, fun large _ => ?_⟩
    exact absurd (Binary64.exists_position_of_toRat? value).1 (not_lt_of_ge large)
  · have size := Decimal.abs_of_toRat? value
    rw [size]
    refine ⟨fun small => ?_, fun large moderate => ?_⟩
    · simp only [approximated?, Decimal.toFloat?, Binary64.isFinite_ofScientific s small, if_true,
        value]
    · have infinite : (Binary64.ofScientific s m e).isFinite = false := by
        rw [Bool.eq_false_iff, Ne, Binary64.isFinite_ofScientific_iff s (moderate s m e rfl)]
        exact not_lt_of_ge large
      simp only [approximated?, Decimal.toFloat?, infinite, Bool.false_eq_true, if_false]

section Approximated

variable {bound places : Nat} {v : Value} {q : Rat} (positive : 1 ≤ bound) (tidied : v.tidy = v)
  (found : approximated? v = .ok (some q))

include positive tidied found

/-- The value is replaced by a near fraction of bounded denominator, or there is none. -/
theorem recoverReal_of_approximated :
    (∃ r : Rat, r.den ≤ bound ∧ |r - q| ≤ 1 / 10 ^ places ∧
      recoverReal bound places v = .ok (ofRat r)) ∨
      (∀ r : Rat, r.den ≤ bound → 1 / 10 ^ places < |r - q|) ∧
        recoverReal bound places v = .ok v := by
  have unit : (0 : Rat) < 1 / 10 ^ places := by positivity
  have rounded := abs_roundRationalTo_sub_le q places
  rw [zpow_neg, zpow_natCast, ← one_div] at rounded
  rcases limitDenominator_nearest positive q with ⟨bounded, nearest⟩
  have power : ((Nat.pow 10 (places : Int).toNat : Nat) : Rat) = 10 ^ places := by
    rw [Int.toNat_natCast, Nat.pow_eq, Nat.cast_pow, Nat.cast_ofNat]
  simp only [recoverReal, tidied, found, ok_bind, denominatorBound_of_pos positive, rat_abs_eq,
    power, Nat.cast_le, pure_eq_ok]
  split
  next small => exact .inl ⟨_, small, by linarith, rfl⟩
  next =>
    split
    next near => exact .inl ⟨_, bounded, near, rfl⟩
    next far => exact .inr ⟨fun r small => (not_le.mp far).trans_le (nearest r small), rfl⟩

/-- Where fractions of bounded denominator lie further apart, the near one is found. -/
theorem recoverReal_eq_of_near (fine : 2 * bound ^ 2 < 10 ^ places) {r : Rat} (small : r.den ≤ bound)
    (near : |r - q| ≤ 1 / 10 ^ places) : recoverReal bound places v = .ok (ofRat r) := by
  obtain ⟨p, bounded, close, recovered⟩ | ⟨none, -⟩ :=
    @recoverReal_of_approximated bound places v q positive tidied found
  · have same : p = r := by
      refine eq_of_near fine small bounded ?_
      calc |p - r| ≤ |p - q| + |q - r| := abs_sub_le _ _ _
        _ ≤ 1 / 10 ^ places + 1 / 10 ^ places := add_le_add close (by rwa [abs_sub_comm])
        _ = 2 * (1 / 10 ^ places) := by ring
    rw [recovered, same]
  · exact absurd near (not_le_of_gt (none r small))

end Approximated

/-- A double or decimal in the range of doubles is replaced by a fraction whose denominator is
within the bound and which is near, if there is such a fraction, and by the only one if the place
is fine enough; otherwise it stays as it is.  A decimal beyond that range always stays as it
is. -/
theorem recover_spec {bound places : Nat} {v : Value} {q : Rat} (positive : 1 ≤ bound)
    (measured : v.measure? = some q) :
    (|q| < Binary64.overflowThreshold →
      ((∃ r : Rat, r.den ≤ bound ∧ |r - q| ≤ 1 / 10 ^ places ∧
          recover bound places v = .ok (ofRat r)) ∨
        (∀ r : Rat, r.den ≤ bound → 1 / 10 ^ places < |r - q|) ∧
          recover bound places v = .ok v) ∧
      (2 * bound ^ 2 < 10 ^ places → ∀ r : Rat, r.den ≤ bound → |r - q| ≤ 1 / 10 ^ places →
        recover bound places v = .ok (ofRat r))) ∧
    (Binary64.overflowThreshold ≤ |q| →
      (∀ s m e, v = .decimal (.finite s m e) → m.log2 ≤ mostLength) →
      recover bound places v = .ok v) := by
  rcases recover_of_measure? measured bound places with ⟨tidied, real⟩
  rcases approximated?_eq measured with ⟨inside, outside⟩
  rw [real]
  refine ⟨fun small => ⟨?_, fun fine r => ?_⟩, fun large moderate => ?_⟩
  · exact recoverReal_of_approximated positive tidied (inside small)
  · exact recoverReal_eq_of_near positive tidied (inside small) fine
  · rw [recoverReal, tidied, outside large moderate, ok_bind]
    rfl

/-- The decimal `0.3333333333333` is near to one third. -/
theorem recover_spec_third :
    1 ≤ 100000 ∧
      (decimal (.finite false 3333333333333 (-13))).measure? = some (3333333333333 / 10 ^ 13) ∧
      |(3333333333333 / 10 ^ 13 : Rat)| < Binary64.overflowThreshold ∧
      2 * 100000 ^ 2 < 10 ^ 12 ∧
      recover 100000 12 (decimal (.finite false 3333333333333 (-13))) = .ok (ofRat (1 / 3)) := by
  have measured : (decimal (.finite false 3333333333333 (-13))).measure? =
      some (3333333333333 / 10 ^ 13) := by decide +kernel
  have inside : |(3333333333333 / 10 ^ 13 : Rat)| < Binary64.overflowThreshold := by
    rw [← rat_abs_eq]
    decide +kernel
  have near : |(1 / 3 - 3333333333333 / 10 ^ 13 : Rat)| ≤ 1 / 10 ^ 12 := by
    rw [← rat_abs_eq]
    decide +kernel
  exact ⟨by decide, measured, inside, by decide,
    ((@recover_spec 100000 12 _ _ (by decide) measured).1 inside).2 (by decide) (1 / 3)
      (by decide +kernel) near⟩

/-- The decimal `1E+400` is an integer and stays a decimal. -/
theorem recover_large_integer :
    (decimal (.finite false 1 400)).measure? = some (10 ^ 400) ∧
      recover 100000 12 (decimal (.finite false 1 400)) = .ok (decimal (.finite false 1 400)) := by
  exact ⟨by decide +kernel, toOption_eq_some_iff.mp (by decide)⟩

end ExactRoots.Value
