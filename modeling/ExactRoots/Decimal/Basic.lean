import ExactRoots.Natural.Rounding
import ExactRoots.Numeral

/-!
# Decimal numbers

Decimal floating-point numbers that keep the exponent they were written with,
so `1.50` and `1.5` are equal but not the same.  Zeros carry a sign and an
exponent.  A signaling NaN may not enter arithmetic or comparison.
-/

namespace ExactRoots

/-- A decimal floating-point number. -/
inductive Decimal where
  | finite (negative : Bool) (digits : Nat) (exponent : Int)
  | infinite (negative : Bool)
  | nan (negative signaling : Bool) (payload : Nat)
  deriving DecidableEq, Repr

namespace Decimal

/-- The exponent of the first digit of a nonzero number. -/
def adjusted (digits : Nat) (exponent : Int) : Int :=
  exponent + decimalLength digits - 1

/-- An integer as a decimal. -/
def ofInt (n : Int) : Decimal :=
  .finite (n < 0) n.natAbs 0

/-- Whether the number is a NaN that signals. -/
def isSignaling : Decimal → Bool
  | .nan _ signaling _ => signaling
  | _ => false

/-- Whether the number is a NaN of either kind. -/
def isNaN : Decimal → Bool
  | .nan .. => true
  | _ => false

/-- Whether the number is finite. -/
def isFinite : Decimal → Bool
  | .finite .. => true
  | _ => false

/-- Whether the number is a zero, of either sign and any exponent. -/
def isZero : Decimal → Bool
  | .finite _ digits _ => digits == 0
  | _ => false

/-- Whether the number is below zero; no NaN is. -/
def isBelowZero : Decimal → Bool
  | .finite negative digits _ => negative && digits != 0
  | .infinite negative => negative
  | .nan .. => false

/-- The rational that a finite decimal denotes. -/
def toRat? : Decimal → Option Rat
  | .finite negative digits exponent =>
    let signed : Int := if negative then -digits else digits
    some (if 0 ≤ exponent then ((signed * Nat.pow 10 exponent.toNat : Int) : Rat)
      else mkRat signed (Nat.pow 10 (-exponent).toNat))
  | _ => none

/-- The decimal that a numeral writes. -/
def ofNumeral (n : Numeral) : Decimal :=
  .finite n.negative n.digits n.exponent

/-- The decimal that a text spells: a numeral, an infinity, or a NaN with an
optional payload. -/
def read? (text : String) : Option Decimal :=
  match Numeral.read? text with
  | some n => some (ofNumeral n)
  | none =>
    let (negative, name) := Numeral.takeSign (Numeral.trim text.toList)
    let lower := name.map Char.toLower
    let payload? (digits : List Char) : Option Nat :=
      if digits.isEmpty then some 0 else Numeral.natural? digits
    if lower = "inf".toList ∨ lower = "infinity".toList then some (.infinite negative)
    else match lower with
      | 'n' :: 'a' :: 'n' :: digits => (payload? digits).map (.nan negative false)
      | 's' :: 'n' :: 'a' :: 'n' :: digits => (payload? digits).map (.nan negative true)
      | _ => none

/-- The digits of a finite number with its exponent: positional while the
exponent is not positive and at most six zeros follow the point. -/
def finiteText (digits : Nat) (exponent : Int) : String :=
  let shown := (toString digits).toList
  let count := shown.length
  let left := exponent + count
  let point : Int := if exponent ≤ 0 ∧ -6 < left then left else 1
  let body :=
    if point ≤ 0 then
      "0." ++ String.ofList (List.replicate (-point).toNat '0' ++ shown)
    else if (count : Int) ≤ point then
      String.ofList (shown ++ List.replicate (point.toNat - count) '0')
    else
      String.ofList (shown.take point.toNat) ++ "." ++ String.ofList (shown.drop point.toNat)
  let power := left - point
  body ++ if power = 0 then "" else
    "E" ++ (if power < 0 then "-" else "+") ++ toString power.natAbs

/-- The written form, which keeps the exponent. -/
def text : Decimal → String
  | .finite negative digits exponent =>
    (if negative then "-" else "") ++ finiteText digits exponent
  | .infinite negative => (if negative then "-" else "") ++ "Infinity"
  | .nan negative signaling payload =>
    (if negative then "-" else "") ++ (if signaling then "sNaN" else "NaN")
      ++ (if payload = 0 then "" else toString payload)

end Decimal

end ExactRoots
