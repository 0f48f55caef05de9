import ExactRoots.Value.Text

/-!
# Untyped data

Data as it arrives before anything has been checked: settings and requests are
read from it.
-/

namespace ExactRoots

/-- A piece of untyped data. -/
inductive Raw where
  | null
  | flag (b : Bool)
  | int (n : Int)
  | float (x : Float)
  | text (s : String)
  | list (items : List Raw)
  | record (fields : List (String × Raw))
  deriving Inhabited

/-- What stands under a name in a list of fields; the last one counts. -/
def fieldNamed? {α : Type} (name : String) (fields : List (String × α)) : Option α :=
  (fields.reverse.find? (·.1 == name)).map (·.2)

namespace Raw

/-- The entry of a record under a name. -/
def get? (name : String) : Raw → Option Raw
  | .record fields => fieldNamed? name fields
  | _ => none

mutual

/-- The written form of untyped data. -/
def shown : Raw → Except Fault String
  | .null => .ok "None"
  | .flag b => .ok (if b then "True" else "False")
  | .int n => writeInt n
  | .float x => .ok (Binary64.text x)
  | .text s => .ok (Value.quotedText s)
  | .list items => do return Value.bracketed (← shownAll items)
  | .record fields => do return "\x7b" ++ ", ".intercalate (← shownFields fields) ++ "\x7d"

/-- The written forms of the items of a list. -/
def shownAll : List Raw → Except Fault (List String)
  | [] => .ok []
  | item :: items => do return (← shown item) :: (← shownAll items)

/-- The written forms of the fields of a record. -/
def shownFields : List (String × Raw) → Except Fault (List String)
  | [] => .ok []
  | (name, raw) :: fields => do
    return (Value.quotedText name ++ ": " ++ (← shown raw)) :: (← shownFields fields)

end

end Raw

end ExactRoots
