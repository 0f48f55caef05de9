import ExactRoots.Settings.Validation
import Mathlib.Tactic.Choose

/-!
# Settings put over settings

Every field of the settings is read by itself, and what valid settings hold is read as it stands.
So building on valid settings can only fail by what is put over them, it leaves all other fields
alone, and building twice is building once with both lists of fields.  All this holds for data of
any type that has a reader.  The names that are taken are no fields: nothing can be put under them.
-/

namespace ExactRoots

section Fields

variable {α : Type}

/-- In two lists of fields, one after the other, the entries of the later one count. -/
theorem fieldNamed?_append (name : String) (first second : List (String × α)) :
    fieldNamed? name (first ++ second) = (fieldNamed? name second).or (fieldNamed? name first) := by
  rw [fieldNamed?, List.reverse_append, List.find?_append, Option.map_or]
  rfl

end Fields

namespace Settings

variable {α : Type} (reader : Reader α)

/-! ## Kinds of fields -/

/-- The kinds of fields. -/
inductive Kind where
  | count (least : Nat) (below : FieldError)
  | positive
  | range

namespace Kind

/-- What a field of a kind holds. -/
abbrev Content : Kind → Type
  | count .. => Nat
  | positive => Float
  | range => Option (Float × Float)

/-- Read a field of a kind. -/
def read (name : String) : (kind : Kind) → α → Reading kind.Content
  | count least below => readCount reader name least below
  | positive => readPositive reader name
  | range => readRange reader name

/-- The content of a field as data. -/
def data : (kind : Kind) → kind.Content → α
  | count .., n => reader.ofInteger n
  | positive, x => reader.ofNumber x
  | range, ends => reader.ofPair ends

/-- Whether a content keeps the bounds of its kind. -/
def Fits : (kind : Kind) → kind.Content → Prop
  | count least _, n => least ≤ n
  | positive, x => 0.0 < x
  | range, ends => ∀ low high, ends = some (low, high) → ¬ high < low

/-- Whether data is of the type that a kind of field is for, and what it then stands for. -/
def Denotes : (kind : Kind) → α → kind.Content → Prop
  | count .., a, n => reader.toInteger a = .ok (n : Int)
  | positive, a, x => reader.toNumber a = .ok x
  | range, a, ends => reader.toPair a = .ok ends

/-- Whether data is right for a kind of field by itself, and what the field then holds. -/
def Takes (kind : Kind) (a : α) (content : kind.Content) : Prop :=
  kind.Denotes reader a content ∧ kind.Fits content

variable {reader}

/-- What keeps the bounds is right for its field. -/
theorem takes_data {kind : Kind} {content : kind.Content} (fits : kind.Fits content) :
    kind.Takes reader (kind.data reader content) content := by
  refine ⟨?_, fits⟩
  cases kind with
  | count least below => exact reader.toInteger_ofInteger _
  | positive => exact reader.toNumber_ofNumber _
  | range => exact reader.toPair_ofPair _

end Kind

variable {reader}

theorem readCount_eq_ok_iff {name : String} {least n : Nat} {below : FieldError} {a : α} :
    readCount reader name least below a = .ok n ↔
      reader.toInteger a = .ok (n : Int) ∧ least ≤ n := by
  unfold readCount
  split
  next error failed => simp [failed, refuse]
  next m number =>
    rw [number, Except.ok.injEq]
    split
    next enough =>
      rw [Except.ok.injEq]
      omega
    next few =>
      simp only [refuse, reduceCtorEq, false_iff]
      omega

theorem readPositive_eq_ok_iff {name : String} {a : α} {x : Float} :
    readPositive reader name a = .ok x ↔ reader.toNumber a = .ok x ∧ 0.0 < x := by
  unfold readPositive
  split
  next error failed => simp [failed, refuse]
  next y number =>
    rw [number, Except.ok.injEq]
    split
    next above =>
      rw [Except.ok.injEq, iff_self_and]
      rintro rfl
      exact above
    next below =>
      simp only [refuse, reduceCtorEq, false_iff]
      rintro ⟨rfl, above⟩
      exact below above

theorem readRange_eq_ok_iff {name : String} {a : α} {ends : Option (Float × Float)} :
    readRange reader name a = .ok ends ↔
      reader.toPair a = .ok ends ∧ ∀ low high, ends = some (low, high) → ¬ high < low := by
  unfold readRange
  cases reader.toPair a with
  | error details => simp [Reading.under]
  | ok found =>
    obtain _ | ⟨low, high⟩ := found
    · simp only [Reading.under, Except.ok.injEq, iff_self_and]
      rintro rfl
      simp
    · simp only [Reading.under, Except.ok.injEq]
      split
      next unordered =>
        simp only [refuse, reduceCtorEq, false_iff]
        rintro ⟨rfl, ordered⟩
        exact ordered low high rfl unordered
      next ordered =>
        rw [Except.ok.injEq, iff_self_and]
        rintro rfl _ _ ⟨⟩
        exact ordered

/-- A field is read exactly if what stands for it is right for its kind. -/
theorem Kind.read_eq_ok_iff {kind : Kind} {name : String} {a : α} {content : kind.Content} :
    kind.read reader name a = .ok content ↔ kind.Takes reader a content := by
  cases kind with
  | count least below => exact readCount_eq_ok_iff
  | positive => exact readPositive_eq_ok_iff
  | range => exact readRange_eq_ok_iff

section Both

variable {β γ : Type} {first : Reading β} {second : Reading γ} {b : β} {c : γ}

theorem both_eq_ok_iff : both first second = .ok (b, c) ↔ first = .ok b ∧ second = .ok c := by
  cases first <;> cases second <;> simp [both]

end Both

/-! ## Fields -/

/-- The fields of settings. -/
inductive Field where
  | iterations
  | loops
  | tolerance
  | realRange
  | imagRange
  | maxDenominator
  | snapDigits
  | remainderTolerance

namespace Field

/-- The name of a field. -/
def name : Field → String
  | iterations => "iterations"
  | loops => "loops"
  | tolerance => "tolerance"
  | realRange => "real_range"
  | imagRange => "imag_range"
  | maxDenominator => "max_denominator"
  | snapDigits => "snap_digits"
  | remainderTolerance => "remainder_tolerance"

/-- The kind of a field. -/
def kind : Field → Kind
  | iterations | loops | maxDenominator => .count 1 .notAbove
  | snapDigits => .count 0 .notAtLeast
  | tolerance | remainderTolerance => .positive
  | realRange | imagRange => .range

/-- What a field of settings holds. -/
def content (s : Settings) : (f : Field) → f.kind.Content
  | iterations => s.iterations
  | loops => s.loops
  | tolerance => s.tolerance
  | realRange => s.realRange
  | imagRange => s.imagRange
  | maxDenominator => s.maxDenominator
  | snapDigits => s.snapDigits
  | remainderTolerance => s.remainderTolerance

variable (reader) in
/-- The reading of a field over base settings. -/
def readOver (base : Settings) (given : List (String × α)) (f : Field) : Reading f.kind.Content :=
  Settings.field given f.name (f.content base) fun name a => f.kind.read reader name a

end Field

/-- Settings from what their fields hold. -/
def ofContents (contents : (f : Field) → f.kind.Content) : Settings where
  iterations := contents .iterations
  loops := contents .loops
  tolerance := contents .tolerance
  realRange := contents .realRange
  imagRange := contents .imagRange
  maxDenominator := contents .maxDenominator
  snapDigits := contents .snapDigits
  remainderTolerance := contents .remainderTolerance

theorem content_ofContents (contents : (f : Field) → f.kind.Content) (f : Field) :
    f.content (ofContents contents) = contents f := by
  cases f <;> rfl

/-- Settings from the readings of their fields. -/
def gather (reading : (f : Field) → Reading f.kind.Content) : Reading Settings :=
  match both (both (both (reading .iterations) (reading .loops))
        (both (reading .tolerance) (reading .realRange)))
      (both (both (reading .imagRange) (reading .maxDenominator))
        (both (reading .snapDigits) (reading .remainderTolerance))) with
  | .error e => .error e
  | .ok (((iterations, loops), tolerance, realRange), (imagRange, maxDenominator), snapDigits,
      remainderTolerance) =>
    .ok { iterations, loops, tolerance, realRange, imagRange, maxDenominator, snapDigits,
          remainderTolerance }

theorem read_eq_gather (given : List (String × α)) :
    read reader given = gather fun f => f.readOver reader {} given := rfl

/-- Settings are read exactly if every field is. -/
theorem gather_eq_ok_iff {reading : (f : Field) → Reading f.kind.Content} {s : Settings} :
    gather reading = .ok s ↔ ∀ f, reading f = .ok (f.content s) := by
  unfold gather
  constructor
  · intro gathered
    split at gathered
    next => contradiction
    next paired =>
      obtain rfl := Except.ok.inj gathered
      simp only [both_eq_ok_iff] at paired
      rcases paired with ⟨⟨⟨iterations, loops⟩, tolerance, realRange⟩,
        ⟨imagRange, maxDenominator⟩, snapDigits, remainderTolerance⟩
      intro f
      cases f <;> assumption
  · intro each
    simp only [each, both]
    rfl

/-- Settings can be read exactly if every field can be. -/
theorem exists_gather_iff {reading : (f : Field) → Reading f.kind.Content} :
    (∃ s, gather reading = .ok s) ↔ ∀ f, ∃ content, reading f = .ok content := by
  constructor
  · rintro ⟨s, gathered⟩ f
    exact ⟨_, gather_eq_ok_iff.mp gathered f⟩
  · intro each
    choose contents read using each
    refine ⟨ofContents contents, gather_eq_ok_iff.mpr fun f => ?_⟩
    rw [read f, content_ofContents]

theorem toFault_eq_ok_iff {β : Type} {reading : Reading β} {b : β} :
    reading.toFault = .ok b ↔ reading = .ok b := by
  cases reading <;> simp [Reading.toFault]

theorem valid_iff {s : Settings} : s.Valid ↔ ∀ f : Field, f.kind.Fits (f.content s) := by
  constructor
  · intro valid f
    cases f with
    | iterations => exact valid.iterations_pos
    | loops => exact valid.loops_pos
    | tolerance => exact valid.tolerance_pos
    | realRange => exact valid.realRange_ordered
    | imagRange => exact valid.imagRange_ordered
    | maxDenominator => exact valid.maxDenominator_pos
    | snapDigits => exact Nat.zero_le _
    | remainderTolerance => exact valid.remainderTolerance_pos
  · intro fits
    exact ⟨fits .iterations, fits .loops, fits .tolerance, fits .maxDenominator,
      fits .remainderTolerance, fits .realRange, fits .imagRange⟩

/-- The fields of settings hold what the settings do. -/
theorem fieldNamed?_fields (s : Settings) (f : Field) :
    fieldNamed? f.name (s.fields reader) = some (f.kind.data reader (f.content s)) := by
  cases f <;> rfl

/-! ## Building on settings -/

variable {base : Settings} {overrides : List (String × α)}

/-- A field that stands behind the fields of valid settings is read over these settings. -/
theorem readOver_append (valid : base.Valid) (standard : Settings) (f : Field) :
    f.readOver reader standard (base.fields reader ++ overrides) =
      f.readOver reader base overrides := by
  unfold Field.readOver field
  rw [fieldNamed?_append, fieldNamed?_fields]
  cases fieldNamed? f.name overrides with
  | none => exact Kind.read_eq_ok_iff.mpr (Kind.takes_data (valid_iff.mp valid f))
  | some a => rfl

/-- Whether none of the names that are taken stands in a list of fields. -/
def Free (overrides : List (String × α)) : Prop :=
  ∀ name ∈ takenNames, fieldNamed? name overrides = none

theorem free_append {first second : List (String × α)} :
    Free (first ++ second) ↔ Free first ∧ Free second := by
  simp only [Free, fieldNamed?_append, Option.or_eq_none_iff]
  exact ⟨fun free => ⟨fun name taken => (free name taken).2, fun name taken => (free name taken).1⟩,
    fun free name taken => ⟨free.2 name taken, free.1 name taken⟩⟩

theorem any_isSome_iff : (takenNames.any fun name => (fieldNamed? name overrides).isSome) = true ↔
    ¬ Free overrides := by
  simp [Free, Option.isSome_iff_ne_none]

/-- Nothing can be put under a name that is taken. -/
theorem build_of_not_free (taken : ¬ Free overrides) :
    build reader (some base) overrides = .error .unsupported := by
  rw [build, if_pos (any_isSome_iff.mpr taken)]

/-- Building on valid settings reads every field over them, also when nothing is put over them. -/
theorem build_eq_gather (valid : base.Valid) (free : Free overrides) :
    build reader (some base) overrides =
      (gather fun f => f.readOver reader base overrides).toFault := by
  rw [build, if_neg (mt any_isSome_iff.mp (not_not.mpr free))]
  split
  next empty =>
    rw [List.isEmpty_iff.mp empty]
    exact (toFault_eq_ok_iff.mpr (gather_eq_ok_iff.mpr fun f => rfl)).symm
  next =>
    rw [read_eq_gather]
    congr 2
    funext f
    exact readOver_append valid {} f

/-- Settings are built exactly if no name is taken and every field is read over the base. -/
theorem build_eq_ok_iff (valid : base.Valid) {s : Settings} :
    build reader (some base) overrides = .ok s ↔
      Free overrides ∧ ∀ f : Field, f.readOver reader base overrides = .ok (f.content s) := by
  by_cases free : Free overrides
  · rw [build_eq_gather valid free, toFault_eq_ok_iff, gather_eq_ok_iff, and_iff_right free]
  · simp [build_of_not_free free, free]

theorem readOver_of_none {f : Field} (given : fieldNamed? f.name overrides = none) :
    f.readOver reader base overrides = .ok (f.content base) := by
  rw [Field.readOver, field, given]

theorem readOver_of_some {f : Field} {a : α} (given : fieldNamed? f.name overrides = some a) :
    f.readOver reader base overrides = f.kind.read reader f.name a := by
  rw [Field.readOver, field, given]

/-- A field can be read over settings exactly if what is put over it is right for its kind. -/
theorem exists_readOver_iff {f : Field} :
    (∃ content, f.readOver reader base overrides = .ok content) ↔
      ∀ a, fieldNamed? f.name overrides = some a → ∃ content, f.kind.Takes reader a content := by
  cases given : fieldNamed? f.name overrides with
  | none => simp [readOver_of_none given]
  | some a => simp [readOver_of_some given, Kind.read_eq_ok_iff]

/-- What is read over valid settings keeps its bounds. -/
theorem fits_of_readOver (valid : base.Valid) {f : Field} {content : f.kind.Content}
    (read : f.readOver reader base overrides = .ok content) : f.kind.Fits content := by
  cases given : fieldNamed? f.name overrides with
  | none =>
    rw [readOver_of_none given] at read
    obtain rfl := Except.ok.inj read
    exact valid_iff.mp valid f
  | some a =>
    rw [readOver_of_some given, Kind.read_eq_ok_iff] at read
    exact read.2

/-- Fields over valid settings that are themselves built on valid settings are read as both lists
of fields over the latter. -/
theorem readOver_built {s : Settings}
    (built : ∀ f : Field, f.readOver reader base overrides = .ok (f.content s))
    (further : List (String × α)) (f : Field) :
    f.readOver reader s further = f.readOver reader base (overrides ++ further) := by
  have first := built f
  unfold Field.readOver field at first ⊢
  rw [fieldNamed?_append]
  cases fieldNamed? f.name further with
  | none => exact first.symm
  | some a => rfl

/-- Building on valid settings succeeds exactly if no name that is taken is put over them and every
field that is put over them is right for its kind.  Other names that are no fields make no
difference, and a name that is taken is refused.  The result is valid, holds what is put over the
base and agrees with it elsewhere, and building on the result is building on the base with both
lists of fields. -/
theorem build_laws (reader : Reader α) (valid : base.Valid) (overrides : List (String × α)) :
    ((∃ s, build reader (some base) overrides = .ok s) ↔
      Free overrides ∧ ∀ (f : Field) a, fieldNamed? f.name overrides = some a →
        ∃ content, f.kind.Takes reader a content) ∧
    (¬ Free overrides → build reader (some base) overrides = .error .unsupported) ∧
    (∀ others, Free overrides → Free others →
      (∀ f : Field, fieldNamed? f.name others = fieldNamed? f.name overrides) →
      build reader (some base) others = build reader (some base) overrides) ∧
    ∀ s, build reader (some base) overrides = .ok s →
      s.Valid ∧
      (∀ f : Field, fieldNamed? f.name overrides = none → f.content s = f.content base) ∧
      (∀ (f : Field) a, fieldNamed? f.name overrides = some a →
        f.kind.Takes reader a (f.content s)) ∧
      ∀ further, build reader (some s) further =
        build reader (some base) (overrides ++ further) := by
  refine ⟨?succeeds, build_of_not_free, fun others free free' same => ?unknown,
    fun s built => ?result⟩
  case succeeds =>
    by_cases free : Free overrides
    · simp only [build_eq_gather valid free, toFault_eq_ok_iff]
      rw [exists_gather_iff, and_iff_right free]
      exact forall_congr' fun f => exists_readOver_iff
    · simp [build_of_not_free free, free]
  case unknown =>
    rw [build_eq_gather valid free, build_eq_gather valid free']
    congr 2
    funext f
    rw [Field.readOver, Field.readOver, field, field, same f]
  case result =>
    rcases (build_eq_ok_iff valid).mp built with ⟨free, built⟩
    have fits : s.Valid := valid_iff.mpr fun f => fits_of_readOver valid (built f)
    refine ⟨fits, fun f given => ?_, fun f a given => ?_, fun further => ?_⟩
    · have read := built f
      rw [readOver_of_none given] at read
      exact (Except.ok.inj read).symm
    · have read := built f
      rw [readOver_of_some given, Kind.read_eq_ok_iff] at read
      exact read
    · by_cases free' : Free further
      · rw [build_eq_gather fits free', build_eq_gather valid (free_append.mpr ⟨free, free'⟩)]
        congr 2
        funext f
        exact readOver_built built further f
      · rw [build_of_not_free free', build_of_not_free fun both => free' (free_append.mp both).2]

/-- Over the defaults, a count is replaced and a name that is no field is passed over. -/
theorem build_laws_loops :
    (Settings.Valid {}) ∧
      build Raw.reader (some {}) [("loops", .int 5), ("depth", .null)] = .ok { loops := 5 } ∧
      ∀ further, build Raw.reader (some { loops := 5 }) further =
        build Raw.reader (some {}) ([("loops", .int 5), ("depth", .null)] ++ further) := by
  have built : build Raw.reader (some {}) [("loops", .int 5), ("depth", .null)] =
      .ok { loops := 5 } := by rfl
  exact ⟨valid_default, built,
    ((build_laws Raw.reader valid_default _).2.2.2 _ built).2.2.2⟩

/-- A name that is no field is refused all the same when it is taken. -/
theorem build_taken_name :
    Settings.Valid {} ∧ (∀ f : Field, fieldNamed? f.name [("options", Raw.int 1)] = none) ∧
      build Raw.reader (some {}) [("options", .int 1)] = .error .unsupported :=
  ⟨valid_default, fun f => by cases f <;> rfl, rfl⟩

end Settings

end ExactRoots
