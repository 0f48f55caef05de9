import ExactRoots.Digits
import ExactRoots.Proofs.Natural.DecimalLength
import ExactRoots.Proofs.Outcome

/-!
# Integers that can be written

An integer is written just when it has no more digits than the limit, and a rational when
its numerator and its denominator are.  Texts that are put together from such texts are
there under all the conditions of their parts, and else refused for the same reason.
-/

namespace ExactRoots

open Outcome

/-- Whether a natural number has no more digits than are written. -/
def Short (n : Nat) : Prop := n < 10 ^ mostDigits

instance : DecidablePred Short := fun n => Nat.decLt n (10 ^ mostDigits)

theorem short_zero : Short 0 := Nat.pow_pos (by decide)

theorem short_one : Short 1 := Nat.one_lt_pow (by decide) (by decide)

theorem short_of_le {k n : Nat} (le : n ≤ 10 ^ k) (few : k < mostDigits) : Short n :=
  le.trans_lt (Nat.pow_lt_pow_right (by decide) few)

/-- Whether a rational has a short numerator and a short denominator. -/
structure Writable (q : Rat) : Prop where
  num : Short q.num.natAbs
  den : Short q.den

theorem writable_zero : Writable 0 := ⟨short_zero, short_one⟩

/-! ## Computations with a condition -/

/-- Whether a computation of a text succeeds under a condition, and else refuses a number that
is too long. -/
structure WrittenIf (legible : Prop) {α : Type} (text : Except Fault α) : Prop where
  written : legible → ∃ a, text = .ok a
  refused : ¬ legible → text = .error .malformed

namespace WrittenIf

variable {α β : Type} {p q : Prop} {first : Except Fault α}

theorem faults (written : WrittenIf p first) :
    FaultsIn (fun fault => fault = .malformed ∧ ¬ p) first := by
  intro fault failed
  by_cases holds : p
  · rcases written.written holds with ⟨a, done⟩
    rw [done] at failed
    contradiction
  · rw [written.refused holds] at failed
    cases failed
    exact ⟨rfl, holds⟩

theorem ok (a : α) (holds : p) : WrittenIf p (.ok a : Except Fault α) :=
  ⟨fun _ => ⟨a, rfl⟩, fun fails => absurd holds fails⟩

theorem congr (same : p ↔ q) (written : WrittenIf p first) : WrittenIf q first := by
  rwa [propext same] at written

theorem bind {next : α → Except Fault β} (start : WrittenIf p first)
    (each : ∀ a, WrittenIf q (next a)) : WrittenIf (p ∧ q) (first >>= next) := by
  by_cases holds : p
  · rcases start.written holds with ⟨a, done⟩
    rw [done, ok_bind]
    exact (each a).congr (and_iff_right holds).symm
  · rw [start.refused holds]
    exact ⟨fun both => absurd both.1 holds, fun _ => rfl⟩

theorem map (f : α → β) (start : WrittenIf p first) : WrittenIf p (first.map f) := by
  constructor
  · intro holds
    rcases start.written holds with ⟨a, done⟩
    exact ⟨f a, by rw [done, Except.map]⟩
  · intro fails
    rw [start.refused fails, Except.map]

theorem mapM {P : α → Prop} {f : α → Except Fault β} (each : ∀ a, WrittenIf (P a) (f a))
    (entries : List α) : WrittenIf (∀ a ∈ entries, P a) (entries.mapM f) := by
  induction entries with
  | nil => exact .ok [] (by simp)
  | cons entry rest ih =>
    rw [List.mapM_cons]
    apply ((each entry).bind fun first => ih.bind (q := True) fun others => .ok _ trivial).congr
    rw [and_true, List.forall_mem_cons]

end WrittenIf

/-! ## Integers and rationals -/

theorem decimalLength_le_mostDigits_iff {n : Nat} : decimalLength n ≤ mostDigits ↔ Short n :=
  decimalLength_le_iff (by decide) (by decide)

theorem writeInt_of_short {n : Int} (short : Short n.natAbs) : writeInt n = .ok (toString n) := by
  rw [writeInt, if_neg (Nat.not_lt.mpr (decimalLength_le_mostDigits_iff.mpr short))]

theorem writeInt_of_not_short {n : Int} (long : ¬ Short n.natAbs) :
    writeInt n = .error .malformed := by
  rw [writeInt, if_pos (Nat.lt_of_not_le (mt decimalLength_le_mostDigits_iff.mp long))]

theorem writtenIf_writeInt (n : Int) : WrittenIf (Short n.natAbs) (writeInt n) :=
  ⟨fun short => ⟨_, writeInt_of_short short⟩, writeInt_of_not_short⟩

theorem writable_iff {q : Rat} : Writable q ↔ Short q.num.natAbs ∧ Short q.den :=
  ⟨fun ⟨num, den⟩ => ⟨num, den⟩, fun ⟨num, den⟩ => ⟨num, den⟩⟩

theorem writtenIf_writeDivisor (n : Nat) : WrittenIf (Short n) (writeDivisor n) := by
  unfold writeDivisor
  split
  next whole => exact .ok _ (whole ▸ short_one)
  next => exact (writtenIf_writeInt n).map _

theorem writtenIf_writeRational (q : Rat) : WrittenIf (Writable q) (writeRational q) := by
  apply ((writtenIf_writeInt q.num).bind fun num =>
    (writtenIf_writeDivisor q.den).bind (q := True) fun den => .ok _ trivial).congr
  rw [and_true, writable_iff]

end ExactRoots
