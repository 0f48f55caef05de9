import ExactRoots.Natural.FloorSqrt

/-!
# Roots of natural numbers

Integer roots of any order, perfect powers, and the factors of a natural number
below a bound, as they are needed to bring a radical to simplest form.
-/

namespace ExactRoots.Radical

/-- The largest natural number in `[low, high]` whose power is at most `n`,
where the power of `low` is. -/
def search (n order : Nat) : (fuel low high : Nat) → Nat
  | 0, low, _ => low
  | fuel + 1, low, high =>
    if high ≤ low then low
    else
      let middle := (low + high + 1) / 2
      if Nat.pow middle order ≤ n then search n order fuel middle high
      else search n order fuel low (middle - 1)

/-- The floor of the root of order `order`. -/
def floorRoot (n order : Nat) : Nat :=
  let length := n.log2 / max order 1 + 2
  if n ≤ 1 then n else search n order length 1 (Nat.pow 2 (length - 1))

/-- The root of order `order` of a perfect power. -/
def root? (n order : Nat) : Option Nat :=
  let root := floorRoot n order
  if Nat.pow root order = n then some root else none

/-- A natural number as a power with the greatest exponent up to a bound, which
is at least two. -/
def perfectPower? (n : Nat) : (bound : Nat) → Option (Nat × Nat)
  | 0 | 1 => none
  | bound + 2 =>
    match root? n (bound + 2) with
    | some root => if 1 < root then some (root, bound + 2) else perfectPower? n (bound + 1)
    | none => perfectPower? n (bound + 1)

/-- The greatest divisor that is tried. -/
def greatestDivisor : Nat := 32768

/-- How often a divisor divides a number, and what is left. -/
def divideOut (n divisor : Nat) : (fuel count : Nat) → Nat × Nat
  | 0, count => (count, n)
  | fuel + 1, count =>
    if n % divisor = 0 then divideOut (n / divisor) divisor fuel (count + 1) else (count, n)

/-- The factors of a number from a divisor on, each with its count.  What is left
without a divisor up to the greatest one tried counts as a factor. -/
def factorsFrom : (fuel n divisor : Nat) → List (Nat × Nat)
  | 0, n, _ => if n ≤ 1 then [] else [(n, 1)]
  | fuel + 1, n, divisor =>
    if n < divisor * divisor then (if n ≤ 1 then [] else [(n, 1)])
    else if n % divisor = 0 then
      let (count, rest) := divideOut n divisor (n.log2 + 1) 0
      (divisor, count) :: factorsFrom fuel rest (divisor + 1)
    else factorsFrom fuel n (divisor + 1)

/-- A number above one as a product of powers: a perfect power of one base, or
else by its factors. -/
def powers (n : Nat) : List (Nat × Nat) :=
  match perfectPower? n n.log2 with
  | some power => [power]
  | none => factorsFrom greatestDivisor n 2

end ExactRoots.Radical
