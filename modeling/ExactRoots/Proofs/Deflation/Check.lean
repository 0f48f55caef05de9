import ExactRoots.Deflation.Check
import ExactRoots.Proofs.Binary64.Comparison
import ExactRoots.Proofs.Value.Text

/-!
# What the check of a deflation accepts

A deflation passes when it shortens the polynomial and no magnitude in its remainder
is above the limit.  Magnitudes that are NaN are passed over on either side: they do
not raise the limit, and they are not above it.  What is refused is told of in a
sentence, unless a number in that is too long to be written.
-/

namespace ExactRoots.Deflation

open Value Outcome

/-- Whether a double is among others and at least as large as each of them that is a number. -/
structure IsGreatest (m : Float) (sizes : List Float) : Prop where
  mem : m ∈ sizes
  le : ∀ size ∈ sizes, size.isNaN = false → size ≤ m

/-- The larger of two doubles, the first one unless the second one is above it, is the greatest of
both. -/
theorem isGreatest_cons {m least size : Float} {sizes : List Float} (number : least.isNaN = false)
    (greatest : IsGreatest m ((if least < size then size else least) :: sizes)) :
    IsGreatest m (least :: size :: sizes) := by
  have first := greatest.le _ List.mem_cons_self
  split at greatest
  next less =>
    rw [if_pos less] at first
    have above := first (Binary64.isNaN_of_lt less).2
    refine ⟨List.mem_cons_of_mem _ greatest.mem, ?_⟩
    rw [List.forall_mem_cons]
    exact ⟨fun _ => Binary64.le_trans (Binary64.le_of_lt less) above, greatest.le⟩
  next notLess =>
    rw [if_neg notLess] at first
    have above := first number
    refine ⟨?_, ?_⟩
    · rcases List.mem_cons.mp greatest.mem with rfl | member
      · exact List.mem_cons_self
      · exact List.mem_cons_of_mem _ (List.mem_cons_of_mem _ member)
    · rw [List.forall_mem_cons, List.forall_mem_cons]
      refine ⟨fun _ => above, fun sized => ?_, (List.forall_mem_cons.mp greatest.le).2⟩
      exact Binary64.le_trans ((Binary64.not_lt number sized).mp notLess) above

theorem greatest_spec {least : Float} (number : least.isNaN = false) {cs : Coefficients}
    {sizes : List Float} (measured : cs.mapM magnitude = .ok sizes) :
    ∃ m, greatest least cs = .ok m ∧ IsGreatest m (least :: sizes) := by
  induction cs generalizing least sizes with
  | nil =>
    cases mapM_eq_ok_iff.mp measured
    refine ⟨least, rfl, List.mem_cons_self, ?_⟩
    simpa using Binary64.le_refl
  | cons c cs ih =>
    cases mapM_eq_ok_iff.mp measured with
    | @cons _ size _ sizes first rest =>
      have number' : (if least < size then size else least).isNaN = false := by
        split
        next less => exact (Binary64.isNaN_of_lt less).2
        next => exact number
      rcases ih number' (mapM_eq_ok_iff.mpr rest) with ⟨m, computed, spec⟩
      refine ⟨m, ?_, isGreatest_cons number spec⟩
      rw [greatest, first, ok_bind, computed]

theorem exceeds_eq (limit : Float) {cs : Coefficients} {sizes : List Float}
    (measured : cs.mapM magnitude = .ok sizes) :
    exceeds limit cs = .ok (decide (∃ size ∈ sizes, limit < size)) := by
  induction cs generalizing sizes with
  | nil =>
    cases mapM_eq_ok_iff.mp measured
    simp [exceeds]
  | cons c cs ih =>
    cases mapM_eq_ok_iff.mp measured with
    | @cons _ size _ sizes first rest =>
      simp only [exceeds, first, ok_bind, ih (mapM_eq_ok_iff.mpr rest), List.exists_mem_cons_iff]
      by_cases above : limit < size <;> simp [above]

/-- The limit that a remainder is measured against is a number. -/
theorem isNaN_limit {s : Settings} (valid : s.Valid) {scale : Float} (one_le : 1.0 ≤ scale) :
    (s.remainderTolerance * scale).isNaN = false := by
  apply Binary64.isNaN_mul_of_pos valid.remainderTolerance_pos
  have number : (0.0 : Float).isNaN = false := by decide
  have scaleNumber : scale.isNaN = false := by
    rcases Binary64.le_iff_places.mp one_le with ⟨-, b, -, place, -⟩
    exact Binary64.isNaN_eq_false_iff.mpr ⟨b, place⟩
  by_contra notAbove
  have below := (Binary64.not_lt number scaleNumber).mp notAbove
  exact absurd (Binary64.le_trans one_le below) (by decide)

theorem one_le_of_isGreatest {m : Float} {sizes : List Float}
    (greatest : IsGreatest m (1.0 :: sizes)) : 1.0 ≤ m :=
  greatest.le 1.0 List.mem_cons_self (by decide)

section Check

variable {s : Settings} {current quotient remainder : Coefficients} {root : Value}
  {sizes : List Float}

theorem check_of_length_le {limit : Float} (computed : remainderLimit s current = .ok limit)
    (long : current.length ≤ quotient.length) : check s current quotient remainder root =
      root.display >>= fun text => .error (.degreeNotReduced text ((quotient.length : Int) - 1)
        ((current.length : Int) - 1)) := by
  rw [check, computed, ok_bind, dif_neg long.not_gt]
  rfl

theorem check_of_length_lt {limit : Float} (computed : remainderLimit s current = .ok limit)
    (short : quotient.length < current.length) (measured : remainder.mapM magnitude = .ok sizes) :
    check s current quotient remainder root =
      if ∃ size ∈ sizes, limit < size then
        root.display >>= fun text => listText remainder >>= fun entries =>
          .error (.remainderLeft text entries (Binary64.text limit))
      else .ok ⟨short⟩ := by
  rw [check, computed, ok_bind, dif_pos short, exceeds_eq limit measured, ok_bind]
  by_cases above : ∃ size ∈ sizes, limit < size <;> simp [above]

/-- Whether a deflation that leaves the degree as it was is refused for that. -/
structure RefusesDegree (s : Settings) (current quotient remainder : Coefficients)
    (root : Value) : Prop where
  told : root.Legible → ∃ text, root.display = .ok text ∧ check s current quotient remainder root =
    .error (.degreeNotReduced text ((quotient.length : Int) - 1) ((current.length : Int) - 1))
  untold : ¬ root.Legible → check s current quotient remainder root = .error .malformed

/-- Whether a deflation is refused for a remainder above a limit. -/
structure RefusesRemainder (s : Settings) (current quotient remainder : Coefficients)
    (root : Value) (limit : Float) : Prop where
  told : (root.Legible ∧ ∀ r ∈ remainder, r.Legible) →
    ∃ text entries, root.display = .ok text ∧ listText remainder = .ok entries ∧
      check s current quotient remainder root =
        .error (.remainderLeft text entries (Binary64.text limit))
  untold : ¬ (root.Legible ∧ ∀ r ∈ remainder, r.Legible) →
    check s current quotient remainder root = .error .malformed

theorem refusesDegree_of_length_le {limit : Float}
    (computed : remainderLimit s current = .ok limit) (long : current.length ≤ quotient.length) :
    RefusesDegree s current quotient remainder root := by
  have checked : check s current quotient remainder root =
      root.display >>= fun text => .error (.degreeNotReduced text ((quotient.length : Int) - 1)
        ((current.length : Int) - 1)) := check_of_length_le computed long
  constructor
  · intro legible
    rcases (writtenIf_display root).written legible with ⟨text, displayed⟩
    rw [displayed] at checked
    exact ⟨text, displayed, checked⟩
  · intro illegible
    rwa [(writtenIf_display root).refused illegible] at checked

theorem refusesRemainder_of_length_lt {limit : Float}
    (computed : remainderLimit s current = .ok limit) (short : quotient.length < current.length)
    (measured : remainder.mapM magnitude = .ok sizes) (above : ∃ size ∈ sizes, limit < size) :
    RefusesRemainder s current quotient remainder root limit := by
  have checked : check s current quotient remainder root =
      root.display >>= fun text => listText remainder >>= fun entries =>
        .error (.remainderLeft text entries (Binary64.text limit)) := by
    rw [check_of_length_lt computed short measured, if_pos above]
  constructor
  · rintro ⟨legible, all⟩
    rcases (writtenIf_display root).written legible with ⟨text, displayed⟩
    rcases (writtenIf_listText remainder).written all with ⟨entries, listed⟩
    rw [displayed, ok_bind, listed] at checked
    exact ⟨text, entries, displayed, listed, checked⟩
  · intro illegible
    by_cases legible : root.Legible
    · rcases (writtenIf_display root).written legible with ⟨text, displayed⟩
      have unlisted := (writtenIf_listText remainder).refused fun all => illegible ⟨legible, all⟩
      rwa [displayed, ok_bind, unlisted] at checked
    · rwa [(writtenIf_display root).refused legible] at checked

/-- A deflation passes the check when the quotient is shorter and every magnitude in the remainder
is at most the limit or NaN.  One that fails tells which of both went wrong, if the root and the
remainder can be written. -/
theorem check_spec (valid : s.Valid) {remaining : List Float}
    (measured : current.mapM magnitude = .ok sizes)
    (left : remainder.mapM magnitude = .ok remaining) :
    ∃ scale, IsGreatest scale (1.0 :: sizes) ∧
      ((check s current quotient remainder root).isOk ↔ quotient.length < current.length ∧
        ∀ size ∈ remaining, size ≤ s.remainderTolerance * scale ∨ size.isNaN) ∧
      (current.length ≤ quotient.length → RefusesDegree s current quotient remainder root) ∧
      (quotient.length < current.length →
        (∃ size ∈ remaining, s.remainderTolerance * scale < size) →
        RefusesRemainder s current quotient remainder root (s.remainderTolerance * scale)) := by
  have start : (1.0 : Float).isNaN = false := by decide
  rcases greatest_spec start measured with ⟨scale, largest, spec⟩
  have computed : remainderLimit s current = .ok (s.remainderTolerance * scale) := by
    rw [remainderLimit, largest, ok_bind, pure_eq_ok]
  have number := isNaN_limit valid (one_le_of_isGreatest spec)
  have within : (¬ ∃ size ∈ remaining, s.remainderTolerance * scale < size) ↔
      ∀ size ∈ remaining, size ≤ s.remainderTolerance * scale ∨ size.isNaN := by
    simp only [not_exists, not_and, Binary64.not_lt_iff number]
  refine ⟨scale, spec, ?_, refusesDegree_of_length_le computed, fun short =>
    refusesRemainder_of_length_lt computed short left⟩
  rcases Nat.lt_or_ge quotient.length current.length with short | long
  · rw [check_of_length_lt computed short left, ← within]
    by_cases above : ∃ size ∈ remaining, s.remainderTolerance * scale < size
    · rw [if_pos above, isOk_iff]
      exact ⟨fun passes => by simp [bind_eq_ok_iff] at passes, fun passes => absurd above passes.2⟩
    · rw [if_neg above]
      exact ⟨fun _ => ⟨short, above⟩, fun _ => rfl⟩
  · rw [check_of_length_le computed long, isOk_iff]
    exact ⟨fun passes => by simp [bind_eq_ok_iff] at passes,
      fun passes => absurd passes.1 long.not_gt⟩

/-- Dividing out 2 from x² - 4 shortens it, and the remainder is zero. -/
theorem check_spec_square :
    let current : Coefficients := [.int 1, .int 0, .int (-4)]
    Settings.Valid {} ∧ current.mapM magnitude = .ok [1.0, 0.0, 4.0] ∧
      [Value.int 0].mapM magnitude = .ok [0.0] ∧ ∃ scale, IsGreatest scale [1.0, 1.0, 0.0, 4.0] ∧
        ((check {} current [.int 1, .int 2] [.int 0] (.int 2)).isOk ↔ 2 < 3 ∧
          ∀ size ∈ [0.0], size ≤ (1e-6 : Float) * scale ∨ size.isNaN) := by
  intro current
  have valid : Settings.Valid {} := Settings.valid_default
  have measured : current.mapM magnitude = .ok [1.0, 0.0, 4.0] :=
    toOption_eq_some_iff.mp (by decide)
  have left : [Value.int 0].mapM magnitude = .ok [0.0] :=
    toOption_eq_some_iff.mp (by decide)
  rcases @check_spec _ _ [.int 1, .int 2] _ (.int 2) _ valid _ measured left with
    ⟨scale, greatest, passes, -⟩
  exact ⟨valid, measured, left, scale, greatest, passes⟩

/-- A remainder that is NaN passes, and is not at most any limit. -/
theorem check_of_nan : (check {} [.int 1, .int 0] [.int 1] [.float (0.0 / 0.0)] (.int 0)).isOk ∧
    magnitude (.float (0.0 / 0.0)) = .ok (0.0 / 0.0) ∧
    ∀ limit : Float, ¬ (0.0 / 0.0 : Float) ≤ limit := by
  refine ⟨by decide, toOption_eq_some_iff.mp (by decide), ?_⟩
  intro limit within
  rcases Binary64.le_iff_places.mp within with ⟨a, -, place, -⟩
  have number := Binary64.isNaN_eq_false_iff.mpr ⟨a, place⟩
  exact absurd number (by decide)

end Check

end ExactRoots.Deflation
