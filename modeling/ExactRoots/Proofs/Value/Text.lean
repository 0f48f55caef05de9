import ExactRoots.Proofs.Digits
import ExactRoots.Value.Text

/-!
# Values that can be written

A value is written unless an integer in it has too many digits, alone and in a list.
-/

namespace ExactRoots

open Outcome

/-- Whether both parts of a Gaussian rational can be written. -/
def Gaussian.Legible (u : Gaussian) : Prop := Writable u.re ∧ Writable u.im

namespace Value

/-- Whether no integer in a value has too many digits. -/
def Legible : Value → Prop
  | .int n => Short n.natAbs
  | .frac q => Writable q
  | .exact re im _ => Gaussian.Legible ⟨re, im⟩
  | .formal e =>
    match e.number with
    | .exact u => u.Legible
    | .inexact _ => True
  | _ => True

theorem writtenIf_unitText (n : Nat) : WrittenIf (Short n) (unitText n) := by
  unfold unitText
  split
  next one => exact .ok _ (one ▸ short_one)
  next => exact (writtenIf_writeInt n).map _

theorem writtenIf_imaginaryText (q : Rat) : WrittenIf (Writable q) (imaginaryText q) := by
  apply ((writtenIf_unitText q.num.natAbs).bind fun num =>
    (writtenIf_writeDivisor q.den).bind (q := True) fun den => .ok _ trivial).congr
  rw [and_true, writable_iff]

theorem writable_neg {q : Rat} : Writable (-q) ↔ Writable q := by
  rw [writable_iff, writable_iff, Rat.neg_num, Rat.neg_den, Int.natAbs_neg]

theorem writtenIf_gaussianText (re im : Rat) :
    WrittenIf (Gaussian.Legible ⟨re, im⟩) (gaussianText re im) := by
  unfold gaussianText
  split
  next zero =>
    apply (writtenIf_imaginaryText im).congr
    rw [Gaussian.Legible, zero, and_iff_right writable_zero]
  next =>
    have size : WrittenIf (Writable im) (imaginaryText (if im < 0 then -im else im)) := by
      split
      next => exact (writtenIf_imaginaryText (-im)).congr writable_neg
      next => exact writtenIf_imaginaryText im
    apply ((writtenIf_writeRational re).bind fun real =>
      size.bind (q := True) fun imaginary => .ok _ trivial).congr
    rw [and_true, Gaussian.Legible]

theorem writtenIf_exactText (u : Gaussian) : WrittenIf u.Legible (exactText u) := by
  unfold exactText
  split
  next real =>
    apply (writtenIf_writeRational u.re).congr
    rw [Gaussian.Legible, real, and_iff_left writable_zero]
  next => exact writtenIf_gaussianText u.re u.im

/-- A value stands alone in a sentence just when it is legible. -/
theorem writtenIf_display (v : Value) : WrittenIf v.Legible v.display := by
  cases v with
  | int n => exact writtenIf_writeInt n
  | frac q => exact writtenIf_writeRational q
  | exact re im nonreal => exact writtenIf_gaussianText re im
  | formal e =>
    rw [Legible, display]
    cases e.number with
    | exact u => exact writtenIf_exactText u
    | inexact x => exact .ok _ trivial
  | _ => exact .ok _ trivial

/-- So it is with values in a list. -/
theorem writtenIf_shown (v : Value) : WrittenIf v.Legible v.shown := by
  cases v with
  | frac q =>
    apply ((writtenIf_writeInt q.num).bind fun num =>
      (writtenIf_writeInt q.den).bind (q := True) fun den => .ok _ trivial).congr
    rw [and_true]
    exact writable_iff.symm
  | decimal d => exact .ok _ trivial
  | text s => exact .ok _ trivial
  | int _ | «exact» _ _ _ | inexact _ | formal _ | absent => exact writtenIf_display _

theorem writtenIf_listText (vs : List Value) :
    WrittenIf (∀ v ∈ vs, v.Legible) (listText vs) :=
  (WrittenIf.mapM writtenIf_shown vs).map _

end Value

end ExactRoots
