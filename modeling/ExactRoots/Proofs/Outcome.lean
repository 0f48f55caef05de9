import ExactRoots.Fault
import Mathlib.Data.List.Forall2

/-!
# Outcomes of computations

Computations that may fail are chained by binding.  A chain ends in a value
exactly when all its parts do, and every fault of a chain is a fault of one of
its parts.
-/

namespace ExactRoots.Outcome

variable {α β : Type}

@[simp]
theorem ok_bind (a : α) (next : α → Except Fault β) : (Except.ok a >>= next) = next a := rfl

@[simp]
theorem error_bind (fault : Fault) (next : α → Except Fault β) :
    ((Except.error fault : Except Fault α) >>= next) = .error fault := rfl

@[simp]
theorem pure_eq_ok (a : α) : (pure a : Except Fault α) = .ok a := rfl

@[simp]
theorem throw_eq_error (fault : Fault) : (throw fault : Except Fault α) = .error fault := rfl

/-- A chain of two computations ends in a value exactly when both do. -/
theorem bind_eq_ok_iff {first : Except Fault α} {next : α → Except Fault β} {b : β} :
    (first >>= next) = .ok b ↔ ∃ a, first = .ok a ∧ next a = .ok b := by
  cases first with
  | error fault => simp
  | ok a => simp

/-- A chain of two computations ends in a fault when its first one does, or when
that ends in a value and the second one in the fault. -/
theorem bind_eq_error_iff {first : Except Fault α} {next : α → Except Fault β} {fault : Fault} :
    (first >>= next) = .error fault ↔
      first = .error fault ∨ ∃ a, first = .ok a ∧ next a = .error fault := by
  cases first with
  | error other => simp
  | ok a => simp

/-- A computation with its result mapped ends in a value exactly when it does. -/
theorem map_eq_ok_iff {first : Except Fault α} {f : α → β} {b : β} :
    first.map f = .ok b ↔ ∃ a, first = .ok a ∧ f a = b := by
  cases first with
  | error fault => simp [Except.map]
  | ok a => simp [Except.map]

/-- The option of a computation tells the value that it ends in. -/
theorem toOption_eq_some_iff {outcome : Except Fault α} {a : α} :
    outcome.toOption = some a ↔ outcome = .ok a := by
  cases outcome <;> simp [Except.toOption]

theorem isOk_iff {outcome : Except Fault α} : outcome.isOk = true ↔ ∃ a, outcome = .ok a := by
  cases outcome <;> simp [Except.isOk, Except.toBool]

/-- The fault that a computation ends in. -/
def fault? : Except Fault α → Option Fault
  | .ok _ => none
  | .error fault => some fault

theorem fault?_eq_some_iff {outcome : Except Fault α} {fault : Fault} :
    fault? outcome = some fault ↔ outcome = .error fault := by
  cases outcome <;> simp [fault?]

/-- Every fault that a computation may end in satisfies a predicate. -/
def FaultsIn (P : Fault → Prop) (outcome : Except Fault α) : Prop :=
  ∀ fault, outcome = .error fault → P fault

variable {P : Fault → Prop}

@[simp]
theorem faultsIn_ok (a : α) : FaultsIn P (.ok a) := by
  intro fault failed
  contradiction

@[simp]
theorem faultsIn_error {fault : Fault} :
    FaultsIn P (.error fault : Except Fault α) ↔ P fault := by
  simp [FaultsIn]

/-- The faults of a chain are faults of its parts. -/
@[simp]
theorem faultsIn_bind_iff {first : Except Fault α} {next : α → Except Fault β} :
    FaultsIn P (first >>= next) ↔
      FaultsIn P first ∧ ∀ a, first = .ok a → FaultsIn P (next a) := by
  cases first with
  | error fault => simp
  | ok a => simp

@[simp]
theorem faultsIn_map_iff {first : Except Fault α} {f : α → β} :
    FaultsIn P (first.map f) ↔ FaultsIn P first := by
  cases first with
  | error fault => simp [Except.map]
  | ok a => simp [Except.map]

@[simp]
theorem faultsIn_ite_iff {c : Prop} [Decidable c] {first second : Except Fault α} :
    FaultsIn P (if c then first else second) ↔
      (c → FaultsIn P first) ∧ (¬ c → FaultsIn P second) := by
  by_cases holds : c <;> simp [holds]

/-- A list is mapped without other faults than those at its entries. -/
theorem FaultsIn.mapM {f : α → Except Fault β} {entries : List α}
    (each : ∀ a ∈ entries, FaultsIn P (f a)) : FaultsIn P (entries.mapM f) := by
  induction entries with
  | nil => simp
  | cons entry rest ih =>
    rw [List.forall_mem_cons] at each
    simp [each.1, ih each.2]

theorem FaultsIn.mono {Q : Fault → Prop} {outcome : Except Fault α}
    (faults : FaultsIn P outcome) (weaken : ∀ fault, P fault → Q fault) :
    FaultsIn Q outcome :=
  fun fault failed => weaken fault (faults fault failed)

/-- The value that a computation may end in satisfies a predicate. -/
def Yields (Q : α → Prop) (outcome : Except Fault α) : Prop :=
  ∀ a, outcome = .ok a → Q a

@[simp]
theorem yields_ok {Q : α → Prop} {a : α} : Yields Q (.ok a) ↔ Q a := by
  simp [Yields]

@[simp]
theorem yields_error {Q : α → Prop} (fault : Fault) : Yields Q (.error fault) := by
  intro a returned
  contradiction

@[simp]
theorem yields_bind_iff {Q : β → Prop} {first : Except Fault α} {next : α → Except Fault β} :
    Yields Q (first >>= next) ↔ ∀ a, first = .ok a → Yields Q (next a) := by
  cases first with
  | error fault => simp
  | ok a => simp

@[simp]
theorem yields_ite_iff {Q : α → Prop} {c : Prop} [Decidable c] {first second : Except Fault α} :
    Yields Q (if c then first else second) ↔ (c → Yields Q first) ∧ (¬ c → Yields Q second) := by
  by_cases holds : c <;> simp [holds]

/-- A list is mapped to values that satisfy what those of its entries do. -/
theorem Yields.mapM {Q : β → Prop} {f : α → Except Fault β} {entries : List α}
    (each : ∀ a ∈ entries, Yields Q (f a)) :
    Yields (fun results => ∀ b ∈ results, Q b) (entries.mapM f) := by
  induction entries with
  | nil => simp
  | cons entry rest ih =>
    rw [List.forall_mem_cons] at each
    simp only [List.mapM_cons, yields_bind_iff, pure_eq_ok, yields_ok, List.forall_mem_cons]
    exact fun b head bs tail => ⟨each.1 b head, ih each.2 bs tail⟩

/-- Whether all faults of a computation satisfy one predicate and its value another one. -/
def Ends (P : Fault → Prop) (Q : α → Prop) (outcome : Except Fault α) : Prop :=
  FaultsIn P outcome ∧ Yields Q outcome

section Ends

variable {Q : α → Prop} {R : β → Prop} {first : Except Fault α} {next : α → Except Fault β}

@[simp]
theorem ends_ok {a : α} : Ends P Q (.ok a) ↔ Q a := by simp [Ends]

@[simp]
theorem ends_error {fault : Fault} : Ends P Q (.error fault) ↔ P fault := by simp [Ends]

theorem Ends.bind (faults : FaultsIn P first) (each : ∀ a, first = .ok a → Ends P R (next a)) :
    Ends P R (first >>= next) :=
  ⟨faultsIn_bind_iff.mpr ⟨faults, fun a done => (each a done).1⟩,
    yields_bind_iff.mpr fun a done => (each a done).2⟩

/-- A chain ends as its second computation does after any value that the first one may give. -/
theorem Ends.andThen (ends : Ends P Q first) (each : ∀ a, Q a → Ends P R (next a)) :
    Ends P R (first >>= next) :=
  .bind ends.1 fun a found => each a (ends.2 a found)

theorem Ends.cases (ends : Ends P Q first) :
    (∃ a, first = .ok a ∧ Q a) ∨ ∃ fault, first = .error fault ∧ P fault := by
  cases outcome : first with
  | ok a => exact .inl ⟨a, rfl, ends.2 a outcome⟩
  | error fault => exact .inr ⟨fault, rfl, ends.1 fault outcome⟩

theorem Ends.weaken {F : Fault → Prop} (ends : Ends P Q first) (each : ∀ fault, P fault → F fault) :
    Ends F Q first :=
  ⟨ends.1.mono each, ends.2⟩

theorem Ends.mono {S : α → Prop} (ends : Ends P Q first) (weaken : ∀ a, Q a → S a) :
    Ends P S first :=
  ⟨ends.1, fun a found => weaken a (ends.2 a found)⟩

/-- A computation that gives a value unless a condition holds fails only under that condition. -/
theorem Ends.failsOnlyIf {C : Prop} (ends : Ends P Q first) (gives : ¬ C → ∃ a, first = .ok a) :
    Ends (fun fault => P fault ∧ C) Q first := by
  refine ⟨fun fault failed => ⟨ends.1 fault failed, ?_⟩, ends.2⟩
  by_contra fine
  rcases gives fine with ⟨a, done⟩
  rw [done] at failed
  contradiction

end Ends

/-- Mapping a list succeeds exactly when it does at every entry. -/
theorem mapM_eq_ok_iff {f : α → Except Fault β} {entries : List α} {results : List β} :
    entries.mapM f = .ok results ↔ List.Forall₂ (fun a b => f a = .ok b) entries results := by
  induction entries generalizing results with
  | nil =>
    constructor
    · intro mapped
      obtain rfl : [] = results := by simpa using mapped
      exact .nil
    · intro related
      cases related
      rfl
  | cons entry rest ih =>
    simp only [List.mapM_cons, bind_eq_ok_iff, pure_eq_ok, Except.ok.injEq]
    constructor
    · rintro ⟨b, head, bs, tail, rfl⟩
      exact .cons head (ih.mp tail)
    · intro related
      cases related with
      | cons head tail => exact ⟨_, head, _, ih.mpr tail, rfl⟩

/-- A list can be mapped exactly when each of its entries can. -/
theorem exists_mapM_eq_ok_iff {f : α → Except Fault β} {entries : List α} :
    (∃ results, entries.mapM f = .ok results) ↔ ∀ a ∈ entries, ∃ b, f a = .ok b := by
  induction entries with
  | nil => simp
  | cons entry rest ih =>
    rw [List.forall_mem_cons, ← ih]
    constructor
    · rintro ⟨results, mapped⟩
      cases mapM_eq_ok_iff.mp mapped with
      | cons head tail => exact ⟨⟨_, head⟩, _, mapM_eq_ok_iff.mpr tail⟩
    · rintro ⟨⟨b, head⟩, bs, tail⟩
      exact ⟨b :: bs, by simp [head, tail]⟩

end ExactRoots.Outcome
