import ExactRoots.Proofs.Decimal.Nearest
import ExactRoots.Proofs.Value.Recovery
import ExactRoots.Proofs.Value.Rounding

/-!
# Numbers that are too small for a double

A number that is not zero becomes zero as an inexact number exactly when every part of it is
at most half the least positive double.  Integers and inexact numbers never do.
-/

namespace ExactRoots.Value

open Outcome Binary64

/-- Whether a number is not zero and too small for a double.  The parts of an exact complex number
are cut to the digits of an evaluation before they are rounded. -/
def TooSmall : Value → Prop
  | .frac q => q ≠ 0 ∧ |q| ≤ 2 ^ (-1075 : Int)
  | .decimal (.finite _ m e) => m ≠ 0 ∧ (m * 10 ^ e : Rat) ≤ 2 ^ (-1075 : Int)
  | .exact re im _ =>
    |Precision.round .towardZero Formal.evaluationBits re| ≤ 2 ^ (-1075 : Int) ∧
      |Precision.round .towardZero Formal.evaluationBits im| ≤ 2 ^ (-1075 : Int)
  | _ => False

/-- Whether a value is no decimal of millions of digits. -/
def Moderate (v : Value) : Prop := ∀ s m e, v = .decimal (.finite s m e) → m.log2 ≤ mostLength

/-- The Gaussian rational that a number denotes, if it is finite. -/
def amount? : Value → Option Gaussian
  | .decimal d => d.toRat?.map .ofRat
  | .inexact x => (inexact x).located?
  | v => v.gaussian?

end ExactRoots.Value
