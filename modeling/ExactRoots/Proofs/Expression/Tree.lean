import ExactRoots.Expression.Reader
import ExactRoots.Proofs.Formal.Cartesian

/-!
# Reading written numbers

A ratio, a multiple of the imaginary unit, and a sum or difference of the two are
parsed as they are meant: a sign belongs to the first factor, and the unit behind a
ratio is multiplied by all of it.  Such trees amount to expressions in Cartesian
form.
-/

namespace ExactRoots.Expression

/-! ## Tokens and trees -/

/-- The token of a sign before a number, if there is one. -/
def signTokens (negative : Bool) : List Token := if negative then [.minus] else []

/-- The tokens of a ratio; a denominator may be left out. -/
def ratioTokens (n : Nat) (d : Option Nat) : List Token :=
  .whole n :: d.elim [] fun d => [.slash, .whole d]

/-- The tokens of a multiple of the unit; a factor may be left out. -/
def unitTokens (size : Option (Nat × Option Nat)) : List Token :=
  (size.elim [] fun size => ratioTokens size.1 size.2) ++ [.unit]

/-- A factor with the sign before it. -/
def signedTree (negative : Bool) (a : Tree) : Tree := if negative then .neg a else a

/-- The tree of a ratio. -/
def ratioTree (negative : Bool) (n : Nat) (d : Option Nat) : Tree :=
  d.elim (signedTree negative (.whole n)) fun d => .div (signedTree negative (.whole n)) (.whole d)

/-- The tree of a multiple of the unit. -/
def unitTree (negative : Bool) (size : Option (Nat × Option Nat)) : Tree :=
  size.elim (signedTree negative .unit) fun size => .mul (ratioTree negative size.1 size.2) .unit

theorem ofTokens?_ratio (negative : Bool) (n : Nat) (d : Option Nat) :
    Tree.ofTokens? (signTokens negative ++ ratioTokens n d) = some (ratioTree negative n d) := by
  cases negative <;> cases d <;> rfl

/-- A plus before a ratio does not count. -/
theorem ofTokens?_plus_ratio (n : Nat) (d : Option Nat) :
    Tree.ofTokens? (.plus :: ratioTokens n d) = some (ratioTree false n d) := by
  cases d <;> rfl

theorem ofTokens?_unit (negative : Bool) (size : Option (Nat × Option Nat)) :
    Tree.ofTokens? (signTokens negative ++ unitTokens size) = some (unitTree negative size) := by
  obtain _ | ⟨n, _ | d⟩ := size <;> cases negative <;> rfl

theorem ofTokens?_sum (negative minus : Bool) (n : Nat) (d : Option Nat)
    (size : Option (Nat × Option Nat)) :
    Tree.ofTokens? (signTokens negative ++ ratioTokens n d ++
        (if minus then .minus else .plus) :: unitTokens size) =
      some ((if minus then Tree.sub else .add) (ratioTree negative n d) (unitTree false size)) := by
  obtain _ | ⟨k, _ | e⟩ := size <;> cases negative <;> cases minus <;> cases d <;> rfl

/-! ## Values -/

/-- The number that a ratio stands for. -/
def ratio (negative : Bool) (n : Nat) (d : Option Nat) : Rat :=
  (if negative then -(n : Rat) else n) / d.getD 1

theorem eval?_signed_whole (negative : Bool) (n : Nat) :
    (signedTree negative (.whole n)).eval? =
      some (.rational (if negative then -(n : Rat) else n)) := by
  cases negative <;> rfl

theorem eval?_ratio (negative : Bool) (n : Nat) {d : Option Nat} (positive : ∀ k ∈ d, 0 < k) :
    (ratioTree negative n d).eval? = some (.rational (ratio negative n d)) := by
  cases d with
  | none =>
    rw [ratioTree, Option.elim_none, eval?_signed_whole, ratio, Option.getD_none, Nat.cast_one,
      div_one]
  | some k =>
    have divided := Formal.div?_rational (if negative then -(n : Rat) else n)
      (Nat.cast_pos.mpr (positive k rfl) : (0 : Rat) < k)
    rw [ratioTree, Option.elim_some, Tree.eval?, eval?_signed_whole]
    exact divided

/-- The factor of the unit that a multiple of it stands for. -/
def factor (negative : Bool) (size : Option (Nat × Option Nat)) : Rat :=
  size.elim (if negative then -1 else 1) fun size => ratio negative size.1 size.2

theorem eval?_unit (negative : Bool) {size : Option (Nat × Option Nat)}
    (positive : ∀ k ∈ size, ∀ d ∈ k.2, 0 < d) (nonzero : factor negative size ≠ 0) :
    (unitTree negative size).eval? = some (.imaginary (factor negative size)) := by
  cases size with
  | none => cases negative <;> rfl
  | some size =>
    have multiplied := Formal.mul_unit nonzero
    rw [unitTree, Option.elim_some, Tree.eval?, eval?_ratio negative size.1 (positive size rfl)]
    exact congrArg some multiplied

/-- A sum or difference amounts to its parts. -/
theorem eval?_sum (negative minus : Bool) (n : Nat) {d : Option Nat}
    {size : Option (Nat × Option Nat)} (positive : ∀ k ∈ d, 0 < k)
    (positive' : ∀ k ∈ size, ∀ d ∈ k.2, 0 < d) (re : ratio negative n d ≠ 0)
    (im : factor false size ≠ 0) :
    ((if minus then Tree.sub else .add) (ratioTree negative n d) (unitTree false size)).eval? =
      some (.ofGaussian ⟨ratio negative n d,
        if minus then -factor false size else factor false size⟩) := by
  have left := eval?_ratio negative n positive
  have right := eval?_unit false positive' im
  cases minus with
  | false =>
    have added := Formal.add_imaginary re im
    simp only [Bool.false_eq_true, if_false, Tree.eval?, left, right]
    exact congrArg some added
  | true =>
    have subtracted := Formal.sub_imaginary re im
    simp only [if_true, Tree.eval?, left, right]
    exact congrArg some subtracted

end ExactRoots.Expression
