import ExactRoots.Binary64.Nearest
import ExactRoots.Numeral

/-!
# Reading doubles

The double that a text spells: a numeral, rounded once, or the name of an
infinity or of NaN in any case.
-/

namespace ExactRoots.Binary64

/-- The double nearest to a numeral. -/
def ofNumeral (n : Numeral) : Float :=
  ofScientific n.negative n.digits n.exponent

/-- The double that a text spells. -/
def read? (text : String) : Option Float :=
  match Numeral.read? text with
  | some n => some (ofNumeral n)
  | none =>
    let (negative, name) := Numeral.takeSign (Numeral.trim text.toList)
    let lower := String.ofList (name.map Char.toLower)
    if lower = "inf" ∨ lower = "infinity" then some (ofPattern negative infinityPattern)
    else if lower = "nan" then some nan
    else none

end ExactRoots.Binary64
