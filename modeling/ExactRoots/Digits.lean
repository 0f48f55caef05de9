import ExactRoots.Fault
import ExactRoots.Natural.Rounding

/-!
# Digits of integers

The texts of integers are limited in length: an integer with more digits is neither
read nor written.
-/

namespace ExactRoots

/-- The most digits that the text of an integer may have. -/
def mostDigits : Nat := 4300

/-- An integer as text. -/
def writeInt (n : Int) : Except Fault String :=
  if mostDigits < decimalLength n.natAbs then .error .malformed else .ok (toString n)

/-- A divisor behind a slash; the divisor one is not written. -/
def writeDivisor (n : Nat) : Except Fault String :=
  if n = 1 then .ok "" else (writeInt n).map ("/" ++ ·)

/-- A rational as `p/q`, or `p` when it is whole. -/
def writeRational (q : Rat) : Except Fault String := do
  let num ← writeInt q.num
  let den ← writeDivisor q.den
  return num ++ den

end ExactRoots
