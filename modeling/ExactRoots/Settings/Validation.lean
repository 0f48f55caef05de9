import ExactRoots.Binary64.Reader
import ExactRoots.Raw
import ExactRoots.Settings.Basic

/-!
# Validation

Settings read from data.  What counts as an integer, a number or a pair of numbers is left
to a reader of such data, and the bounds of the fields and the order of a range are checked
here.  Every field that is refused is reported with its path and the reason, and names that
are not fields are ignored.  Untyped data has a reader that also takes truth values and
numeric text for numbers.
-/

namespace ExactRoots

namespace Settings

/-- The answer of reading a field: the value, or what is wrong with it. -/
abbrev Reading (α : Type) := Except (List Detail) α

/-- A field with one thing wrong. -/
def refuse {α : Type} (path : List String) (error : FieldError) : Reading α :=
  .error [⟨path, error⟩]

/-- What is wrong with a part of a field, as seen from the field. -/
def Reading.under {α : Type} (name : String) (reading : Reading α) : Reading α :=
  match reading with
  | .ok a => .ok a
  | .error details => .error (details.map fun d => { d with path := name :: d.path })

/-- Two readings together; the faults of both are reported. -/
def both {α β : Type} (first : Reading α) (second : Reading β) : Reading (α × β) :=
  match first, second with
  | .ok a, .ok b => .ok (a, b)
  | .ok _, .error e => .error e
  | .error e, .ok _ => .error e
  | .error e, .error e' => .error (e ++ e')

/-- How data is read as an integer, as a double and as an optional pair of doubles.  Integers,
doubles and pairs of doubles are data as well, and are read as they stand. -/
structure Reader (α : Type) where
  toInteger : α → Except FieldError Int
  toNumber : α → Except FieldError Float
  toPair : α → Reading (Option (Float × Float))
  ofInteger : Int → α
  ofNumber : Float → α
  ofPair : Option (Float × Float) → α
  toInteger_ofInteger : ∀ n, toInteger (ofInteger n) = .ok n
  toNumber_ofNumber : ∀ x, toNumber (ofNumber x) = .ok x
  toPair_ofPair : ∀ ends, toPair (ofPair ends) = .ok ends

end Settings

namespace Raw

/-- An integer from text: digits with an optional sign, single underscores
between digits, and an optional fraction of zeros. -/
def integerOfText (s : String) : Except FieldError Int :=
  let read := (Numeral.joinGroups? (Numeral.trim s.toList)).bind fun cs =>
    let (whole, fraction) := cs.span (· != '.')
    let zeros := fraction.drop 1
    if fraction.isEmpty || (!zeros.isEmpty && zeros.all (· == '0')) then
      (Numeral.integer? whole).map fun n => (n, whole.length)
    else none
  match read with
  | some (n, count) => if mostDigits < count then .error .oversizedInteger else .ok n
  | none => .error .unreadableInteger

/-- Untyped data as an integer. -/
def toInteger : Raw → Except FieldError Int
  | .int n => .ok n
  | .flag b => .ok (if b then 1 else 0)
  | .float x =>
    match Binary64.dyadic? x with
    | none => .error .infiniteInteger
    | some d =>
      if !d.isIntegral then .error .fractionalInteger
      else if d.truncate.natAbs < Nat.pow 2 63 then .ok d.truncate
      else .error .oversizedInteger
  | .text s => integerOfText s
  | .null | .list _ | .record _ => .error .notInteger

/-- Untyped data as a double. -/
def toNumber : Raw → Except FieldError Float
  | .int n => if (Binary64.ofInt n).isFinite then .ok (Binary64.ofInt n) else .error .notNumber
  | .flag b => .ok (if b then 1.0 else 0.0)
  | .float x => .ok x
  | .text s =>
    match Binary64.read? s with
    | some x => .ok x
    | none => .error .unreadableNumber
  | .null | .list _ | .record _ => .error .notNumber

open Settings (Reading refuse both)

/-- One end of a range. -/
def toEnd (index : String) (raw : Option Raw) : Reading Float :=
  match raw with
  | none => refuse [index] .absent
  | some raw =>
    match raw.toNumber with
    | .error error => refuse [index] error
    | .ok x => .ok x

/-- Untyped data as an optional pair of doubles. -/
def toPair : Raw → Reading (Option (Float × Float))
  | .null => .ok none
  | .list items =>
    if 2 < items.length then refuse [] .tooLong
    else
      match both (toEnd "0" items[0]?) (toEnd "1" items[1]?) with
      | .error e => .error e
      | .ok (low, high) => .ok (some (low, high))
  | _ => refuse [] .notPair

/-- The ends of a range as untyped data. -/
def ofPair : Option (Float × Float) → Raw
  | none => .null
  | some (low, high) => .list [.float low, .float high]

/-- The reader of untyped data. -/
def reader : Settings.Reader Raw where
  toInteger := toInteger
  toNumber := toNumber
  toPair := toPair
  ofInteger := .int
  ofNumber := .float
  ofPair := ofPair
  toInteger_ofInteger _ := rfl
  toNumber_ofNumber _ := rfl
  toPair_ofPair ends := by cases ends <;> rfl

end Raw

namespace Settings

variable {α : Type} (reader : Reader α)

/-- A count that is at least `least`; `below` is the reason otherwise. -/
def readCount (name : String) (least : Int) (below : FieldError) (a : α) : Reading Nat :=
  match reader.toInteger a with
  | .error error => refuse [name] error
  | .ok n => if least ≤ n then .ok n.toNat else refuse [name] below

/-- A positive double. -/
def readPositive (name : String) (a : α) : Reading Float :=
  match reader.toNumber a with
  | .error error => refuse [name] error
  | .ok x => if 0.0 < x then .ok x else refuse [name] .notAbove

/-- An optional range of two ends in order. -/
def readRange (name : String) (a : α) : Reading (Option (Float × Float)) :=
  match (reader.toPair a).under name with
  | .error e => .error e
  | .ok none => .ok none
  | .ok (some (low, high)) =>
    if high < low then refuse [name] .unordered else .ok (some (low, high))

/-- All fields by name. -/
def fields (s : Settings) : List (String × α) :=
  [("iterations", reader.ofInteger s.iterations), ("loops", reader.ofInteger s.loops),
    ("tolerance", reader.ofNumber s.tolerance), ("real_range", reader.ofPair s.realRange),
    ("imag_range", reader.ofPair s.imagRange),
    ("max_denominator", reader.ofInteger s.maxDenominator),
    ("snap_digits", reader.ofInteger s.snapDigits),
    ("remainder_tolerance", reader.ofNumber s.remainderTolerance)]

/-- Read a field under its name; an absent one has the default. -/
def field {β : Type} (given : List (String × α)) (name : String) (default : β)
    (read : String → α → Reading β) : Reading β :=
  match fieldNamed? name given with
  | none => .ok default
  | some a => read name a

/-- Settings from the fields that are given, each absent one with its default. -/
def read (given : List (String × α)) : Reading Settings :=
  let standard : Settings := {}
  let above (name : String) := readCount reader name 1 .notAbove
  let iterations := field given "iterations" standard.iterations above
  let loops := field given "loops" standard.loops above
  let tolerance := field given "tolerance" standard.tolerance (readPositive reader)
  let realRange := field given "real_range" standard.realRange (readRange reader)
  let imagRange := field given "imag_range" standard.imagRange (readRange reader)
  let maxDenominator := field given "max_denominator" standard.maxDenominator above
  let snapDigits :=
    field given "snap_digits" standard.snapDigits (readCount reader · 0 .notAtLeast)
  let remainderTolerance :=
    field given "remainder_tolerance" standard.remainderTolerance (readPositive reader)
  match both (both (both iterations loops) (both tolerance realRange))
      (both (both imagRange maxDenominator) (both snapDigits remainderTolerance)) with
  | .error e => .error e
  | .ok (((iterations, loops), tolerance, realRange), (imagRange, maxDenominator), snapDigits,
      remainderTolerance) =>
    .ok { iterations, loops, tolerance, realRange, imagRange, maxDenominator, snapDigits,
          remainderTolerance }

/-- Details as a fault. -/
def Reading.toFault {β : Type} (reading : Reading β) : Except Fault β :=
  match reading with
  | .ok b => .ok b
  | .error details => .error (.invalid details)

/-- The names that cannot be put over settings, since what builds them has parameters of these
names itself. -/
def takenNames : List String := ["cls", "options"]

/-- The base settings, or the defaults, with further fields put over them and everything read
again.  Without fields the base stays as it is. -/
def build (base : Option Settings) (overrides : List (String × α)) : Except Fault Settings :=
  if takenNames.any fun name => (fieldNamed? name overrides).isSome then .error .unsupported
  else
    match base with
    | none => (read reader overrides).toFault
    | some base =>
      if overrides.isEmpty then .ok base
      else (read reader (base.fields reader ++ overrides)).toFault

end Settings

end ExactRoots
