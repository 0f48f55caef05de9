import ExactRoots.Entry
import ExactRoots.Proofs.Binary64.Zero
import ExactRoots.Proofs.Value.Exact
import ExactRoots.Proofs.Value.Plain

/-!
# Simplest forms of entries

Bringing a number or a nested list of numbers to simplest form keeps what it denotes.  Doing so
twice is doing it once, with integers in place of integral doubles if either of the two passes asks
for them.
-/

namespace ExactRoots

open Outcome

/-- What an entry denotes: a number by its two parts, a list of what its entries denote, or no
number at all. -/
inductive Meaning where
  | number (re im : Standing)
  | list (items : List Meaning)
  | nothing

namespace Value

/-- What a value denotes.  Decimals and doubles need not denote finite numbers. -/
def meaning : Value → Meaning
  | .int n => .number (.finite n) (.finite 0)
  | .frac q => .number (.finite q) (.finite 0)
  | .exact re im _ => .number (.finite re) (.finite im)
  | .decimal d => .number (.ofDecimal d) (.finite 0)
  | .inexact (.real x) => .number (.ofFloat x) (.finite 0)
  | .inexact (.complex re im) => .number (.ofFloat re) (.ofFloat im)
  | .formal _ | .text _ | .absent => .nothing

theorem meaning_ofRat (q : Rat) : (ofRat q).meaning = .number (.finite q) (.finite 0) := by
  unfold ofRat
  split
  next whole => rw [meaning, Rat.coe_int_num_of_den_eq_one whole]
  next => rfl

theorem simplify_ofRat (dropFloat : Bool) (q : Rat) : (ofRat q).simplify dropFloat = ofRat q := by
  rw [← ofGaussian_ofRat, simplify_ofGaussian]

/-- An integral double denotes the integer that takes its place. -/
theorem meaning_ofFloat (dropFloat : Bool) (x : Float) :
    (ofFloat dropFloat x).meaning = (float x).meaning := by
  unfold ofFloat
  split
  · split
    next n whole => rw [meaning, meaning, Standing.ofFloat, Binary64.toInt?_eq_some_iff.mp whole]
    next => rfl
  · rfl

theorem simplify_ofFloat (first second : Bool) (x : Float) :
    (ofFloat first x).simplify second = ofFloat (first || second) x := by
  cases first with
  | false => rfl
  | true =>
    rw [Bool.true_or, ofFloat, if_pos rfl]
    split
    next => rfl
    next rough =>
      rw [simplify, ofFloat, rough]
      split <;> rfl

/-- The simplest form of a value that is worked out denotes what the value does. -/
theorem meaning_simplify (dropFloat : Bool) {v : Value} (settled : v.Settled) :
    (v.simplify dropFloat).meaning = v.meaning := by
  cases v with
  | frac q => exact meaning_ofRat q
  | inexact x =>
    obtain x | ⟨re, im⟩ := x
    · exact meaning_ofFloat dropFloat x
    rw [simplify]
    split
    next zero =>
      rw [meaning_ofFloat, meaning, meaning]
      exact congrArg _ (by rw [Standing.ofFloat, Binary64.toRat?_of_beq_zero zero])
    next => rfl
  | formal e => exact absurd rfl (settled e)
  | int | exact | decimal | text | absent => rfl

/-- Two passes over a value that is worked out are one. -/
theorem simplify_simplify (first second : Bool) {v : Value} (settled : v.Settled) :
    (v.simplify first).simplify second = v.simplify (first || second) := by
  cases v with
  | frac q => exact simplify_ofRat second q
  | inexact x =>
    obtain x | ⟨re, im⟩ := x
    · exact simplify_ofFloat first second x
    by_cases zero : (im == 0.0) = true
    · rw [simplify, simplify, if_pos zero, if_pos zero, simplify_ofFloat]
    · rw [simplify, simplify, if_neg zero, if_neg zero, simplify, if_neg zero]
  | formal e => exact absurd rfl (settled e)
  | int | exact | decimal | text | absent => rfl

end Value

namespace Entry

mutual

/-- What an entry denotes. -/
def meaning : Entry → Meaning
  | .value v => v.meaning
  | .flag b => (flagValue b).meaning
  | .symbol _ => .nothing
  | .list items => .list (meanings items)
  | .array items => .list (items.map fun x => (Value.float x).meaning)

/-- What the entries of a list denote. -/
def meanings : List Entry → List Meaning
  | [] => []
  | item :: items => meaning item :: meanings items

end

/-- Entries built from values that are worked out, truth values and numbers of fixed width. -/
inductive Settled : Entry → Prop
  | value {v : Value} (settled : v.Settled) : Settled (.value v)
  | flag (b : Bool) : Settled (.flag b)
  | packed (p : Packed) : Settled (.packed p)
  | list {items : List Entry} (each : ∀ item ∈ items, Settled item) : Settled (.list items)
  | array (items : List Float) : Settled (.array items)

/-- How an entry and a simplest form of it are related. -/
structure Simplifies (first : Bool) (e s : Entry) : Prop where
  simplified : e.simplify first = .ok s
  meaning : s.meaning = e.meaning
  settled : s.Settled
  again : ∀ second, s.simplify second = e.simplify (first || second)

variable {first : Bool}

theorem simplifies_value {v : Value} (settled : v.Settled) :
    Simplifies first (.value v) (.value (v.simplify first)) where
  simplified := rfl
  meaning := Value.meaning_simplify first settled
  settled := .value (Value.settled_simplify first v)
  again second := by rw [simplify, simplify, Value.simplify_simplify first second settled]

theorem simplifies_flag (b : Bool) : Simplifies first (.flag b) (.value (flagValue b)) where
  simplified := rfl
  meaning := rfl
  settled := .value (by simp [Value.Settled, flagValue])
  again _ := rfl

theorem settled_item (p : Packed) : p.item.Settled := by
  cases p <;> simp [Packed.item, Value.Settled]

/-- Lists are simplified entry by entry. -/
theorem simplifies_list {items : List Entry} (each : ∀ item ∈ items, ∃ s, Simplifies first item s) :
    ∃ forms, Simplifies first (.list items) (.list forms) := by
  suffices entries : ∃ forms, simplifyAll first items = .ok forms ∧ meanings forms = meanings items ∧
      (∀ form ∈ forms, form.Settled) ∧
      ∀ second, simplifyAll second forms = simplifyAll (first || second) items by
    rcases entries with ⟨forms, simplified, meaning, settled, again⟩
    refine ⟨forms, ?_, congrArg Meaning.list meaning, .list settled, fun second => ?_⟩
    · rw [simplify, simplified]
      rfl
    · rw [simplify, simplify, again second]
  induction items with
  | nil => exact ⟨[], rfl, rfl, by simp, fun _ => rfl⟩
  | cons item items ih =>
    rw [List.forall_mem_cons] at each
    rcases each.1 with ⟨form, head⟩
    rcases ih each.2 with ⟨forms, simplified, meaning, settled, again⟩
    refine ⟨form :: forms, ?_, ?_, ?_, fun second => ?_⟩
    · rw [simplifyAll, head.simplified, simplified]
      rfl
    · rw [meanings, meanings, head.meaning, meaning]
    · rw [List.forall_mem_cons]
      exact ⟨head.settled, settled⟩
    · rw [simplifyAll, simplifyAll, head.again second, again second]

/-! ## Arrays -/

/-- The list of the doubles in an array. -/
def unpacked (items : List Float) : Entry := .list (items.map fun x => .value (.float x))

theorem simplify_unpacked (dropFloat : Bool) (items : List Float) :
    (unpacked items).simplify dropFloat = (array items).simplify dropFloat := by
  have entries : simplifyAll dropFloat (items.map fun x => .value (.float x)) =
      .ok (items.map fun x => .value (Value.ofFloat dropFloat x)) := by
    induction items with
    | nil => rfl
    | cons x items ih =>
      rw [List.map_cons, simplifyAll, ih]
      rfl
  rw [unpacked, simplify, entries]
  rfl

theorem meaning_unpacked (items : List Float) :
    (unpacked items).meaning = (array items).meaning := by
  have entries : meanings (items.map fun x => .value (.float x)) =
      items.map fun x => (Value.float x).meaning := by
    induction items with
    | nil => rfl
    | cons x items ih => rw [List.map_cons, meanings, ih, List.map_cons, meaning]
  rw [unpacked, meaning, meaning, entries]

/-- An array is simplified as the list of its doubles. -/
theorem simplifies_array (items : List Float) :
    ∃ forms, Simplifies first (.array items) (.list forms) := by
  have each : ∀ item ∈ items.map fun x => Entry.value (.float x),
      ∃ s, Simplifies first item s := by
    rw [List.forall_mem_map]
    exact fun x _ => ⟨_, simplifies_value (by simp [Value.Settled])⟩
  rcases simplifies_list each with ⟨forms, form⟩
  refine ⟨forms, ?_, ?_, form.settled, fun second => ?_⟩
  · rw [← simplify_unpacked]
    exact form.simplified
  · rw [← meaning_unpacked]
    exact form.meaning
  · rw [← simplify_unpacked]
    exact form.again second

/-! ## All entries -/

/-- Every entry has a simplest form. -/
theorem exists_simplifies {e : Entry} (settled : e.Settled) : ∃ s, Simplifies first e s := by
  induction settled with
  | value settled => exact ⟨_, simplifies_value settled⟩
  | flag b => exact ⟨_, simplifies_flag b⟩
  | packed p => exact ⟨_, simplifies_value (settled_item p)⟩
  | list each ih =>
    rcases simplifies_list ih with ⟨forms, form⟩
    exact ⟨_, form⟩
  | array items =>
    rcases simplifies_array items with ⟨forms, form⟩
    exact ⟨_, form⟩

/-- Every entry has a simplest form, which denotes the same and is its own simplest form.  A second
pass over it is one pass over the entry that asks for integers in place of integral doubles if
either of the two does. -/
theorem simplify_laws {e : Entry} (settled : e.Settled) (first : Bool) :
    ∃ s, e.simplify first = .ok s ∧ s.meaning = e.meaning ∧ s.simplify first = .ok s ∧
      ∀ second, s.simplify second = e.simplify (first || second) := by
  rcases @exists_simplifies first e settled with ⟨s, form⟩
  refine ⟨s, form.simplified, form.meaning, ?_, form.again⟩
  rw [form.again first, Bool.or_self]
  exact form.simplified

/-- A list that nests truth values, fractions and numbers of fixed width. -/
theorem simplify_laws_nested :
    let e := list [.flag true, .list [.value (.frac (6 / 3)), .packed (.complex128 2.0 (-0.0))],
      .packed (.int64 (-7))]
    e.Settled ∧ ∃ s, e.simplify false = .ok s ∧ s.meaning = e.meaning ∧ s.simplify false = .ok s ∧
      ∀ second, s.simplify second = e.simplify (false || second) := by
  intro e
  have settled : e.Settled := by
    refine .list ?_
    simp only [List.forall_mem_cons]
    refine ⟨.flag true, .list ?_, .packed _, by simp⟩
    simp only [List.forall_mem_cons]
    exact ⟨.value (by simp [Value.Settled]), .packed _, by simp⟩
  exact ⟨settled, simplify_laws settled false⟩

end Entry

end ExactRoots
