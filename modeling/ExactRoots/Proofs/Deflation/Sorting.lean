import ExactRoots.Proofs.Deflation.Chain
import ExactRoots.Proofs.Value.Inexact

/-!
# The order of the roots

Roots are sorted by the doubles next to their parts.  Exact roots can be sorted
when their parts have such doubles, and the order is that of the exact parts as far
as no two different parts become the same double.
-/

namespace ExactRoots

open Outcome Value

namespace Gaussian

/-- The parts of a number, in the order in which numbers are compared by them. -/
def parts (u : Gaussian) : ℚ ×ₗ ℚ := toLex (u.re, u.im)

theorem parts_injective : Function.Injective parts := by
  intro u v same
  rw [parts, parts, toLex_inj, Prod.mk.injEq] at same
  exact Gaussian.ext same.1 same.2

/-- The positions of the doubles next to the parts. -/
def positions (u : Gaussian) : ℤ ×ₗ ℤ :=
  toLex (Binary64.position u.re, Binary64.position u.im)

/-- Whether both parts have a double next to them. -/
def InRange (u : Gaussian) : Prop :=
  |u.re| < Binary64.overflowThreshold ∧ |u.im| < Binary64.overflowThreshold

/-- Whether the doubles next to the parts of two numbers compare as the parts do. -/
def RoundsInOrder (u v : Gaussian) : Prop := u.positions ≤ v.positions ↔ u.parts ≤ v.parts

/-- Whether no two different parts of two numbers become the same double. -/
structure Apart (u v : Gaussian) : Prop where
  re : Binary64.position u.re = Binary64.position v.re → u.re = v.re
  im : Binary64.position u.im = Binary64.position v.im → u.im = v.im

theorem Apart.roundsInOrder {u v : Gaussian} (apart : u.Apart v) : u.RoundsInOrder v := by
  unfold RoundsInOrder positions parts
  have strict : ∀ {p q : ℚ}, (Binary64.position p = Binary64.position q → p = q) →
      (Binary64.position p < Binary64.position q ↔ p < q) := by
    intro p q apart
    constructor
    · contrapose!
      exact Binary64.position_mono
    · intro less
      exact lt_of_le_of_ne (Binary64.position_mono less.le) (mt apart less.ne)
  have same : Binary64.position u.re = Binary64.position v.re ↔ u.re = v.re :=
    ⟨apart.re, congrArg Binary64.position⟩
  have compared : Binary64.position u.im ≤ Binary64.position v.im ↔ u.im ≤ v.im := by
    rw [le_iff_lt_or_eq, le_iff_lt_or_eq, strict apart.im]
    exact or_congr_right ⟨apart.im, congrArg Binary64.position⟩
  rw [Prod.Lex.toLex_le_toLex, Prod.Lex.toLex_le_toLex]
  exact or_congr (strict apart.re) (and_congr same compared)

end Gaussian

namespace Deflation

/-! ## Keys -/

/-- An exact root has a key exactly when its parts are in range. -/
theorem sortKey_of_isGaussian {v : Value} (exact : v.IsGaussian) :
    (v.number.InRange →
        sortKey v = .ok (Binary64.ofRat v.number.re, Binary64.ofRat v.number.im)) ∧
      (¬ v.number.InRange → sortKey v = .error .overflow) := by
  rw [sortKey, realPart_of_gaussian? exact.gaussian?_eq, imagPart_of_gaussian? exact.gaussian?_eq,
    toFloat_ofRat, toFloat_ofRat, Gaussian.InRange]
  by_cases re : |v.number.re| < Binary64.overflowThreshold
  · by_cases im : |v.number.im| < Binary64.overflowThreshold
    · simp [re, im]
    · simp [re, im]
  · simp [re]

/-- Keys compare as the positions that they are made of. -/
theorem not_keyLess_eq (u v : Gaussian) :
    (!keyLess (Binary64.ofRat v.re, Binary64.ofRat v.im)
        (Binary64.ofRat u.re, Binary64.ofRat u.im)) = decide (u.positions ≤ v.positions) := by
  have less : keyLess (Binary64.ofRat v.re, Binary64.ofRat v.im)
      (Binary64.ofRat u.re, Binary64.ofRat u.im) = decide (v.positions < u.positions) := by
    rw [Bool.eq_iff_iff, decide_eq_true_eq, Gaussian.positions, Gaussian.positions,
      Prod.Lex.toLex_lt_toLex, keyLess]
    simp only [Binary64.ofRat_beq_iff]
    split
    next same => simp [Binary64.ofRat_lt_iff, same]
    next different => simp [Binary64.ofRat_lt_iff, different]
  rw [less, ← decide_not, decide_eq_decide, not_lt]

/-! ## Stable sorting -/

/-- Merging only compares entries of the first list with entries of the second. -/
theorem merge_congr {α : Type} {le le' : α → α → Bool} {front back : List α}
    (same : ∀ a ∈ front, ∀ b ∈ back, le a b = le' a b) :
    front.merge back le = front.merge back le' := by
  simpa using List.map_merge (f := id) same

/-- Sorting only compares entries with entries behind them. -/
theorem mergeSort_congr {α : Type} {le le' : α → α → Bool} : ∀ {entries : List α},
    (entries.Pairwise fun a b => le a b = le' a b) → entries.mergeSort le = entries.mergeSort le'
  | [], _ => by simp
  | [_], _ => by simp
  | a :: b :: rest, same => by
    rw [← List.take_append_drop ((a :: b :: rest).length.succ / 2) (a :: b :: rest),
      List.pairwise_append] at same
    rcases same with ⟨front, back, across⟩
    simp only [List.mergeSort, List.MergeSort.Internal.splitInTwo_fst,
      List.MergeSort.Internal.splitInTwo_snd]
    rw [mergeSort_congr front, mergeSort_congr back]
    apply merge_congr
    intro x inFront y inBack
    exact across x (List.mem_mergeSort.mp inFront) y (List.mem_mergeSort.mp inBack)
termination_by entries => entries.length
decreasing_by
  · simp only [List.length_take, List.length_cons]
    omega
  · simp only [List.length_drop, List.length_cons]
    omega

section Orders

variable {α β γ : Type} [LinearOrder β] [LinearOrder γ]

/-- Whether an entry is sorted before another, or along with it. -/
def sortsBefore (f : α → β) (a b : α) : Bool := decide (f a ≤ f b)

theorem sortsBefore_trans (f : α → β) (a b c : α) (first : sortsBefore f a b = true)
    (second : sortsBefore f b c = true) : sortsBefore f a c = true :=
  decide_eq_true ((of_decide_eq_true first).trans (of_decide_eq_true second))

theorem sortsBefore_total (f : α → β) (a b : α) :
    (sortsBefore f a b || sortsBefore f b a) = true := by
  simpa [sortsBefore] using le_total (f a) (f b)

/-- Entries that are sorted by `f` are in this order. -/
theorem pairwise_mergeSort_sortsBefore (f : α → β) (entries : List α) :
    (entries.mergeSort (sortsBefore f)).Pairwise fun a b => f a ≤ f b :=
  (List.pairwise_mergeSort (sortsBefore_trans f) (sortsBefore_total f) entries).imp
    of_decide_eq_true

/-- Entries that are sorted by `f` are in the order of `g` exactly when the two compare alike
wherever one entry is before another. -/
theorem pairwise_mergeSort_iff {f : α → β} {g : α → γ} (finer : ∀ a b, g a = g b → f a = f b)
    (entries : List α) :
    ((entries.mergeSort (sortsBefore f)).Pairwise fun a b => g a ≤ g b) ↔
      entries.Pairwise fun a b => f a ≤ f b ↔ g a ≤ g b := by
  constructor
  · intro sorted
    rw [List.pairwise_iff_forall_sublist]
    intro a b found
    constructor
    · intro before
      -- the sort is stable
      have kept := List.pair_sublist_mergeSort (sortsBefore_trans f) (sortsBefore_total f)
        (decide_eq_true before) found
      exact List.pairwise_iff_forall_sublist.mp sorted kept
    · intro before
      -- of any two entries, one is at most the other in both orders
      have both := (pairwise_mergeSort_sortsBefore f entries).and sorted
      have member : ∀ c ∈ [a, b], c ∈ entries.mergeSort (sortsBefore f) :=
        fun c member => List.mem_mergeSort.mpr (found.subset member)
      have comparable := List.Pairwise.forall_of_forall_of_flip
        (R := fun a b => (f a ≤ f b ∧ g a ≤ g b) ∨ (f b ≤ f a ∧ g b ≤ g a))
        (fun c _ => .inl ⟨le_rfl, le_rfl⟩) (both.imp .inl) (both.imp .inr)
        (member a (by simp)) (member b (by simp))
      rcases comparable with ⟨first, -⟩ | ⟨-, after⟩
      · exact first
      · exact (finer a b (le_antisymm before after)).le
  · intro alike
    have same : entries.mergeSort (sortsBefore f) = entries.mergeSort (sortsBefore g) :=
      mergeSort_congr (alike.imp decide_eq_decide.mpr)
    rw [same]
    exact pairwise_mergeSort_sortsBefore g entries

end Orders

/-! ## Exact roots -/

/-- The roots of a run in the order in which they are found. -/
def collect (s : Settings) (cs : Coefficients) : Except Fault (List Value) := do
  let current ← prepare cs
  let trace := deflate s (current.all isExact) current
  let last ← trace.rest
  return trace.steps.map (·.root) ++ (← closing last)

/-- What a run returns is what it finds, sorted. -/
theorem roots_eq_sortRoots (s : Settings) (cs : Coefficients) :
    cs.roots s = collect s cs >>= sortRoots := by
  rw [Coefficients.roots, run, collect]
  cases prepare cs with
  | error fault => rfl
  | ok current => simp only [ok_bind, bind_assoc, pure_eq_ok]

/-- Sorting by doubles is sorting by exact parts as far as the doubles compare as the parts do. -/
theorem pairwise_mergeSort_parts_iff (found : List Value) :
    ((found.mergeSort (sortsBefore fun v => v.number.positions)).Pairwise fun v w =>
        v.number.parts ≤ w.number.parts) ↔
      found.Pairwise fun v w => v.number.RoundsInOrder w.number := by
  apply pairwise_mergeSort_iff
  intro v w same
  exact congrArg Gaussian.positions (Gaussian.parts_injective same)

section Exact

variable {found : List Value} (exact : ∀ v ∈ found, v.IsGaussian)

include exact

theorem sortRoots_of_inRange (range : ∀ v ∈ found, v.number.InRange) :
    sortRoots found = .ok (found.mergeSort (sortsBefore fun v => v.number.positions)) := by
  let key (v : Value) : (Float × Float) × Value :=
    ((Binary64.ofRat v.number.re, Binary64.ofRat v.number.im), v)
  have keyed : (found.mapM fun v => do return (← sortKey v, v)) = .ok (found.map key) := by
    rw [mapM_eq_ok_iff, List.forall₂_map_right_iff, List.forall₂_same]
    intro v member
    rw [(sortKey_of_isGaussian (exact v member)).1 (range v member)]
    rfl
  have compared : ∀ a ∈ found.map key, ∀ b ∈ found.map key,
      (!keyLess b.1 a.1) = sortsBefore (fun v => v.number.positions) a.2 b.2 := by
    simp only [List.forall_mem_map]
    intro v _ w _
    exact not_keyLess_eq v.number w.number
  have forgotten : (found.map key).map (·.2) = found := by
    rw [List.map_map]
    exact List.map_id _
  rw [sortRoots, keyed, ok_bind, pure_eq_ok, List.map_mergeSort compared, forgotten]

theorem sortRoots_of_not_inRange (far : ∃ v ∈ found, ¬ v.number.InRange) :
    sortRoots found = .error .overflow := by
  rcases far with ⟨v, member, far⟩
  cases keyed : found.mapM fun v => do return (← sortKey v, v) with
  | ok keys =>
    rcases exists_mapM_eq_ok_iff.mp ⟨keys, keyed⟩ v member with ⟨entry, single⟩
    rw [(sortKey_of_isGaussian (exact v member)).2 far] at single
    contradiction
  | error fault =>
    have overflows : FaultsIn (· = .overflow) (found.mapM fun v => do return (← sortKey v, v)) := by
      apply FaultsIn.mapM
      intro w member
      by_cases range : w.number.InRange
      · simp [(sortKey_of_isGaussian (exact w member)).1 range]
      · simp [(sortKey_of_isGaussian (exact w member)).2 range]
    rw [sortRoots, keyed, overflows fault keyed]
    rfl

end Exact

/-- Exact roots whose parts have doubles next to them are returned in the order of these doubles.
That is the order of their exact parts exactly when the doubles compare as the parts do wherever one
root is found before another, and so whenever no two different parts become the same double.  A part
that is too large for a double makes the run fail. -/
theorem roots_order {s : Settings} {cs : Coefficients} {found : List Value}
    (collects : collect s cs = .ok found) (exact : ∀ v ∈ found, v.IsGaussian) :
    ((∀ v ∈ found, v.number.InRange) → ∃ sorted, cs.roots s = .ok sorted ∧ sorted.Perm found ∧
      (sorted.Pairwise fun v w => v.number.positions ≤ w.number.positions) ∧
      ((sorted.Pairwise fun v w => v.number.parts ≤ w.number.parts) ↔
        found.Pairwise fun v w => v.number.RoundsInOrder w.number) ∧
      ((∀ v ∈ found, ∀ w ∈ found, v.number.Apart w.number) →
        sorted.Pairwise fun v w => v.number.parts ≤ w.number.parts)) ∧
    ((∃ v ∈ found, ¬ v.number.InRange) → cs.roots s = .error .overflow) := by
  rw [roots_eq_sortRoots, collects, ok_bind]
  constructor
  · intro range
    have order := pairwise_mergeSort_parts_iff found
    refine ⟨_, sortRoots_of_inRange exact range, List.mergeSort_perm _ _,
      pairwise_mergeSort_sortsBefore _ found, order, ?_⟩
    intro apart
    rw [order, List.pairwise_iff_forall_sublist]
    intro v w pair
    exact (apart v (pair.subset (by simp)) w (pair.subset (by simp))).roundsInOrder
  · exact sortRoots_of_not_inRange exact

/-- A double root, and a third root that is found before it and sorted behind it. -/
theorem roots_order_cubic :
    let cs : Coefficients := [.int 5, .exact (-3) (-4) (by decide), .int 0, .int 0]
    ∃ found sorted, collect {} cs = .ok found ∧ (∀ v ∈ found, v.IsGaussian) ∧
      (∀ v ∈ found, v.number.InRange) ∧ cs.roots {} = .ok sorted ∧
        sorted.Pairwise fun v w => v.number.parts ≤ w.number.parts := by
  intro cs
  let found : List Value := [.exact (3 / 5) (4 / 5) (by decide +kernel), .int 0, .int 0]
  have collects : collect {} cs = .ok found := toOption_eq_some_iff.mp (by decide +kernel)
  have exact : ∀ v ∈ found, v.IsGaussian := by simp [found, IsGaussian, gaussian?]
  have range : ∀ v ∈ found, v.number.InRange := by
    unfold Gaussian.InRange
    decide +kernel
  have ordered : found.Pairwise fun v w => v.number.RoundsInOrder w.number := by
    unfold Gaussian.RoundsInOrder
    decide +kernel
  rcases (roots_order collects exact).1 range with ⟨sorted, returned, -, -, order, -⟩
  exact ⟨found, sorted, collects, exact, range, returned, order.mpr ordered⟩

/-- The roots `10 ^ 16 + 1` and `10 ^ 16` become the same double, and are returned in the order in
which they are found. -/
theorem roots_of_one_double_unsorted :
    let cs : Coefficients :=
      [.int 1, .int (-20000000000000001), .int 100000000000000010000000000000000]
    ∃ found sorted, collect {} cs = .ok found ∧ (∀ v ∈ found, v.IsGaussian) ∧
      cs.roots {} = .ok sorted ∧
        ¬ sorted.Pairwise fun v w => v.number.parts ≤ w.number.parts := by
  intro cs
  let found : List Value := [.int 10000000000000001, .int 10000000000000000]
  have collects : collect {} cs = .ok found := toOption_eq_some_iff.mp (by decide +kernel)
  have exact : ∀ v ∈ found, v.IsGaussian := by simp [found, IsGaussian, gaussian?]
  have range : ∀ v ∈ found, v.number.InRange := by
    unfold Gaussian.InRange
    decide +kernel
  have confused : ¬ found.Pairwise fun v w => v.number.RoundsInOrder w.number := by
    unfold Gaussian.RoundsInOrder
    decide
  have returned := sortRoots_of_inRange exact range
  refine ⟨found, _, collects, exact, ?_, mt (pairwise_mergeSort_parts_iff found).mp confused⟩
  rw [roots_eq_sortRoots, collects, ok_bind, returned]

end Deflation

end ExactRoots
