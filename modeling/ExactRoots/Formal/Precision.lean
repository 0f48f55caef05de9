import ExactRoots.Natural.FloorSqrt
import ExactRoots.Natural.Rounding

/-!
# Numbers of so many binary digits

A rational is brought to a number of significant binary digits by one of three
rules.  Roots are rounded once from the exact root; powers are formed with
guard digits that are cut off as they arise.
-/

namespace ExactRoots

/-- How a number is brought to fewer digits. -/
inductive RoundingRule where
  | nearest
  | towardZero
  | awayFromZero
  deriving DecidableEq, Repr

/-- The quotient `num / den` as a natural number. -/
def RoundingRule.quotient (rule : RoundingRule) (num den : Nat) : Nat :=
  match rule with
  | .nearest => roundHalfEven num den
  | .towardZero => num / den
  | .awayFromZero => (num + den - 1) / den

namespace Precision

/-- The exponent `e` of a nonzero rational with `2 ^ (e - 1) ≤ |q| < 2 ^ e`. -/
def topExponent (q : Rat) : Int :=
  let num := q.num.natAbs
  let estimate : Int := (num.log2 : Int) - q.den.log2
  let reaches : Bool :=
    if 0 ≤ estimate then q.den <<< estimate.toNat ≤ num
    else q.den ≤ num <<< (-estimate).toNat
  if reaches then estimate + 1 else estimate

/-- The number `± n * 2 ^ exponent`. -/
def scaled (negative : Bool) (n : Nat) (exponent : Int) : Rat :=
  let num : Int := if negative then -n else n
  if 0 ≤ exponent then (num * (Nat.pow 2 exponent.toNat : Nat) : Int)
  else mkRat num (Nat.pow 2 (-exponent).toNat)

/-- A rational brought to `bits` binary digits. -/
def round (rule : RoundingRule) (bits : Nat) (q : Rat) : Rat :=
  if q = 0 then 0
  else
    let num := q.num.natAbs
    let unit := topExponent q - bits
    let size :=
      if 0 ≤ unit then rule.quotient num (q.den <<< unit.toNat)
      else rule.quotient (num <<< (-unit).toNat) q.den
    scaled (q.num < 0) size unit

/-- Continue a power by squaring: `product * square ^ n`, with everything beyond
`bits` digits cut off. -/
def guardedPower (bits : Nat) : (fuel n : Nat) → (square product : Rat) → Rat
  | 0, _, _, product => product
  | fuel + 1, n, square, product =>
    if n = 0 then product
    else
      let product := if n % 2 = 1 then round .towardZero bits (product * square) else product
      if n = 1 then product
      else guardedPower bits fuel (n / 2) (round .towardZero bits (square * square)) product

/-- The number of significant binary digits of a dyadic rational. -/
def digitCount (q : Rat) : Nat :=
  (topExponent q + (q.den.log2 : Int)).toNat

/-- A dyadic rational to a natural power.  A power of at most a thousand digits
is formed exactly, a longer one with guard digits. -/
def powerNat (rule : RoundingRule) (bits : Nat) (q : Rat) (n : Nat) : Rat :=
  if q = 0 then (if n = 0 then 1 else 0)
  else if n ≤ 2 ∨ digitCount q * n < 1000 then round rule bits (Rat.pow q n)
  else
    let length := n.log2 + 1
    let size := guardedPower (bits + 4 * length + 4) length n q.abs 1
    round rule bits (if q < 0 ∧ n % 2 = 1 then -size else size)

/-- The rule that errs the other way. -/
def reciprocalRule : RoundingRule → RoundingRule
  | .nearest => .nearest
  | .towardZero => .awayFromZero
  | .awayFromZero => .towardZero

/-- A nonzero dyadic rational to an integer power. -/
def powerInt (rule : RoundingRule) (bits : Nat) (q : Rat) (n : Int) : Rat :=
  if 0 ≤ n then powerNat rule bits q n.toNat
  else if n = -1 then round rule bits (1 / q)
  else round rule bits (1 / powerNat (reciprocalRule rule) (bits + 5) q n.natAbs)

/-- The square root of a dyadic rational that is not negative, rounded once.
The root is taken beyond the digits that are kept, and a digit below them tells
whether it was exact. -/
def root (rule : RoundingRule) (bits : Nat) (q : Rat) : Rat :=
  if q ≤ 0 then 0
  else
    let shift := (2 * (bits + 8 : Int) - topExponent q).toNat
    let exponent := q.den.log2 + shift
    let num := if exponent % 2 = 0 then q.num.natAbs <<< shift else q.num.natAbs <<< (shift + 1)
    let floor := floorSqrt num
    let sticky := if floor * floor = num then 0 else 1
    round rule bits (mkRat (2 * floor + sticky : Nat) (2 * Nat.pow 2 ((exponent + 1) / 2)))

end Precision

end ExactRoots
