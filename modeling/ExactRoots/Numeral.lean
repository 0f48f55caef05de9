/-!
# Numerals

The written form of a number that the readers of doubles and decimals share:
an optional sign, digits with an optional point, and an optional exponent.
Single underscores may stand between digits.
-/

namespace ExactRoots

/-- The number `± digits * 10 ^ exponent` as it was written. -/
structure Numeral where
  negative : Bool
  digits : Nat
  exponent : Int
  deriving DecidableEq, Repr

namespace Numeral

/-- White space that may surround a numeral. -/
def isBlank (c : Char) : Bool :=
  c == ' ' || (9 ≤ c.toNat && c.toNat ≤ 13) || (28 ≤ c.toNat && c.toNat ≤ 31) ||
    c.toNat == 0x85 || c.toNat == 0xa0 || c.toNat == 0x1680 ||
    (0x2000 ≤ c.toNat && c.toNat ≤ 0x200a) || c.toNat == 0x2028 || c.toNat == 0x2029 ||
    c.toNat == 0x202f || c.toNat == 0x205f || c.toNat == 0x3000

/-- Characters without the white space around them. -/
def trim (cs : List Char) : List Char :=
  ((cs.dropWhile isBlank).reverse.dropWhile isBlank).reverse

/-- Split off a leading sign. -/
def takeSign : List Char → Bool × List Char
  | '-' :: rest => (true, rest)
  | '+' :: rest => (false, rest)
  | rest => (false, rest)

/-- Remove underscores that stand between two digits; none may stand
elsewhere. -/
def joinGroups? : List Char → Option (List Char)
  | [] => some []
  | [c] => if c == '_' then none else some [c]
  | c :: '_' :: d :: rest =>
    if c.isDigit && d.isDigit then (joinGroups? (d :: rest)).map (c :: ·) else none
  | c :: rest => if c == '_' then none else (joinGroups? rest).map (c :: ·)

/-- The value of decimal digits read from the left. -/
def digitsValue (cs : List Char) : Nat :=
  cs.foldl (fun value c => value * 10 + (c.toNat - '0'.toNat)) 0

/-- A nonempty run of digits as a number. -/
def natural? (cs : List Char) : Option Nat :=
  if cs.isEmpty || !cs.all Char.isDigit then none else some (digitsValue cs)

/-- A signed run of digits as a number. -/
def integer? (cs : List Char) : Option Int :=
  let (negative, digits) := takeSign cs
  (natural? digits).map fun n => if negative then -(n : Int) else n

/-- The numeral that characters without a sign, blanks or underscores spell. -/
def unsigned? (negative : Bool) (cs : List Char) : Option Numeral :=
  let (mantissa, tail) := cs.span (fun c => c != 'e' && c != 'E')
  let (whole, fraction) := mantissa.span (· != '.')
  let places := fraction.drop 1
  match natural? (whole ++ places), tail with
  | some digits, [] => some ⟨negative, digits, -(places.length : Int)⟩
  | some digits, _ :: power =>
    (integer? power).map fun exponent => ⟨negative, digits, exponent - places.length⟩
  | none, _ => none

/-- The numeral that a text spells. -/
def read? (text : String) : Option Numeral :=
  (joinGroups? (trim text.toList)).bind fun cs =>
    let (negative, rest) := takeSign cs
    unsigned? negative rest

end Numeral

end ExactRoots
