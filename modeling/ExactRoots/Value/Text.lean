import ExactRoots.Digits
import ExactRoots.Value.Basic

/-!
# Text of values

Two written forms.  `Value.display` is how a value stands alone in a sentence;
`Value.shown` is how it stands in a list, where fractions and decimals name
their kind.  A value with an integer in it that is too long has neither.
-/

namespace ExactRoots.Value

/-- A natural multiple of the imaginary unit; the factor one is not written. -/
def unitText (n : Nat) : Except Fault String :=
  if n = 1 then .ok "I" else (writeInt n).map (· ++ "*I")

/-- A nonzero multiple of the imaginary unit, numerator first. -/
def imaginaryText (q : Rat) : Except Fault String := do
  let num ← unitText q.num.natAbs
  let den ← writeDivisor q.den
  return (if q.num < 0 then "-" else "") ++ num ++ den

/-- An exact complex number as a sum, the real part left out when it is
zero. -/
def gaussianText (re im : Rat) : Except Fault String := do
  if re = 0 then imaginaryText im
  else
    let real ← writeRational re
    let imaginary ← imaginaryText (if im < 0 then -im else im)
    return real ++ (if im < 0 then " - " else " + ") ++ imaginary

/-- The escape of one character inside a quoted text. -/
def escaped (quote c : Char) : String :=
  if c == '\\' then "\\\\"
  else if c == quote then String.ofList ['\\', c]
  else if c == '\n' then "\\n"
  else if c == '\r' then "\\r"
  else if c == '\t' then "\\t"
  else if c.toNat < 32 || c.toNat == 127 then
    let digit (n : Nat) : Char := (Nat.toDigits 16 n).headD '0'
    "\\x" ++ String.ofList [digit (c.toNat / 16), digit (c.toNat % 16)]
  else String.singleton c

/-- A text in single quotes, or in double ones when it holds single quotes
only. -/
def quotedText (s : String) : String :=
  let single := Char.ofNat 39
  let quote := if s.contains single && !s.contains '"' then '"' else single
  String.singleton quote ++ String.join (s.toList.map (escaped quote)) ++ String.singleton quote

/-- A Gaussian rational. -/
def exactText (u : Gaussian) : Except Fault String :=
  if u.im = 0 then writeRational u.re else gaussianText u.re u.im

/-- The written form of a value alone. -/
def display : Value → Except Fault String
  | .int n => writeInt n
  | .frac q => writeRational q
  | .exact re im _ => gaussianText re im
  | .decimal d => .ok d.text
  | .inexact x => .ok x.text
  | .formal e =>
    match e.number with
    | .exact u => exactText u
    | .inexact x => .ok x.text
  | .text s => .ok s
  | .absent => .ok "None"

/-- The written form of a value in a list. -/
def shown : Value → Except Fault String
  | .frac q => do
    let num ← writeInt q.num
    let den ← writeInt q.den
    return "Fraction(" ++ num ++ ", " ++ den ++ ")"
  | .decimal d => .ok ("Decimal('" ++ d.text ++ "')")
  | .text s => .ok (quotedText s)
  | v => v.display

/-- Written forms in brackets, with commas between them. -/
def bracketed (texts : List String) : String := "[" ++ ", ".intercalate texts ++ "]"

/-- A list of values in brackets. -/
def listText (vs : List Value) : Except Fault String :=
  (vs.mapM shown).map bracketed

end ExactRoots.Value
