/-!
# Rounding quotients

Quotients of natural numbers and integers rounded to the nearest integer, a
tie going to the even neighbour, and the number of decimal digits.
-/

namespace ExactRoots

/-- The integer nearest to `num / den`, a tie going to the even neighbour. -/
def roundHalfEven (num den : Nat) : Nat :=
  let quotient := num / den
  let rest := 2 * (num % den)
  if den < rest ∨ (rest = den ∧ quotient % 2 = 1) then quotient + 1 else quotient

/-- The integer nearest to a rational, a tie going to the even neighbour. -/
def roundRational (q : Rat) : Int :=
  let size : Int := roundHalfEven q.num.natAbs q.den
  if q.num < 0 then -size else size

/-- A rational rounded to `places` decimals, which may be negative. -/
def roundRationalTo (q : Rat) (places : Int) : Rat :=
  if 0 < places then
    let scale : Nat := Nat.pow 10 places.toNat
    mkRat (roundRational (q * scale)) scale
  else
    let scale : Nat := Nat.pow 10 (-places).toNat
    (roundRational (q / scale) * scale : Int)

/-- The number of decimal digits of `n`, which is one for zero. -/
def decimalLength (n : Nat) : Nat :=
  -- a lower bound from the binary length, which is short by at most one
  let low := n.log2 * 30102999566 / 100000000000
  count n low (Nat.pow 10 low) 2
where
  /-- Count upwards from `length`, given its power of ten. -/
  count (n length power : Nat) : Nat → Nat
    | 0 => length
    | fuel + 1 => if n < power then max length 1 else count n (length + 1) (power * 10) fuel

end ExactRoots
