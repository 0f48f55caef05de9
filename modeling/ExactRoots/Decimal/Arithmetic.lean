import ExactRoots.Decimal.Basic
import ExactRoots.Natural.FloorSqrt

/-!
# Decimal arithmetic

Results are exact where they fit in 28 digits and rounded half-even where they
do not.  Three conditions end a computation: an operation without a value, a
division by zero, and a result beyond the largest exponent.
-/

namespace ExactRoots

/-- What ends a decimal computation. -/
inductive DecimalSignal where
  | invalid
  | divisionByZero
  | overflow
  deriving DecidableEq, Repr

namespace Decimal

/-- The number of digits that arithmetic keeps. -/
def precision : Nat := 28

/-- The largest exponent of a first digit. -/
def maxExponent : Int := 999999

/-- The smallest exponent of a last digit when `digits` digits are kept. -/
def leastExponent (digits : Nat) : Int := -999999 - digits + 1

/-- A finite result fitted to `keep` digits and to the range of exponents. -/
def fit (keep : Nat) (negative : Bool) (digits : Nat) (exponent : Int) :
    Except DecimalSignal Decimal :=
  let least := leastExponent keep
  if digits = 0 then
    .ok (.finite negative 0 (min (max exponent least) maxExponent))
  else
    let lowest := exponent + decimalLength digits - keep
    if maxExponent < lowest + keep - 1 then .error .overflow
    else
      let unit := max lowest least
      if exponent < unit then
        let rounded := roundHalfEven digits (Nat.pow 10 (unit - exponent).toNat)
        -- a carry may add a digit, which is then a zero
        let (kept, unit) :=
          if decimalLength rounded ≤ keep then (rounded, unit) else (rounded / 10, unit + 1)
        if maxExponent < unit + keep - 1 then .error .overflow
        else .ok (.finite negative kept unit)
      else .ok (.finite negative digits exponent)

/-- The answer of an operation on a NaN: it passes through, unless it
signals. -/
def nanResult (a b : Decimal) : Except DecimalSignal Decimal :=
  if a.isSignaling || b.isSignaling then .error .invalid
  else if a.isNaN then .ok a else .ok b

/-- Two finite nonzero numbers over one exponent.  A number far below the last
digit that can matter is replaced by one unit there. -/
def align (high : Nat) (highExponent : Int) (low : Nat) (lowExponent : Int) : Nat × Nat × Int :=
  let floor := highExponent + min (-1) ((decimalLength high : Int) - precision - 2)
  let (low, lowExponent) :=
    if lowExponent + decimalLength low - 1 < floor then (1, floor) else (low, lowExponent)
  if lowExponent ≤ highExponent then
    (high * Nat.pow 10 (highExponent - lowExponent).toNat, low, lowExponent)
  else (high, low * Nat.pow 10 (lowExponent - highExponent).toNat, highExponent)

/-- The sum of a zero and a finite number, over the smaller exponent as far as
the precision allows. -/
def addZero (negative : Bool) (digits : Nat) (exponent zeroExponent : Int) :
    Except DecimalSignal Decimal :=
  let target := min exponent (max zeroExponent (exponent - precision - 1))
  fit precision negative (digits * Nat.pow 10 (exponent - target).toNat) target

/-- The sum. -/
def add : Decimal → Decimal → Except DecimalSignal Decimal
  | .finite s m e, .finite t n f =>
    if m = 0 ∧ n = 0 then fit precision (s && t) 0 (min e f)
    else if m = 0 then addZero t n f e
    else if n = 0 then addZero s m e f
    else
      let (p, q, unit) :=
        if f ≤ e then align m e n f
        else let (q, p, unit) := align n f m e; (p, q, unit)
      if s = t then fit precision s (p + q) unit
      else if p = q then fit precision false 0 (min e f)
      else if q < p then fit precision s (p - q) unit
      else fit precision t (q - p) unit
  | .infinite s, .infinite t => if s = t then .ok (.infinite s) else .error .invalid
  | .infinite s, .finite .. => .ok (.infinite s)
  | .finite .., .infinite t => .ok (.infinite t)
  | a, b => nanResult a b

/-- The same number with the opposite sign, not rounded. -/
def flip : Decimal → Decimal
  | .finite s m e => .finite (!s) m e
  | .infinite s => .infinite (!s)
  | .nan s signaling payload => .nan s signaling payload

/-- The difference. -/
def sub (a b : Decimal) : Except DecimalSignal Decimal :=
  add a b.flip

/-- A single operand brought to the precision of results. -/
def rounded : Decimal → Except DecimalSignal Decimal
  | .finite s m e => fit precision s m e
  | .infinite s => .ok (.infinite s)
  | a => nanResult a a

/-- The negative, rounded; that of a zero is positive. -/
def neg : Decimal → Except DecimalSignal Decimal
  | .finite s m e => fit precision (m != 0 && !s) m e
  | .infinite s => .ok (.infinite (!s))
  | a => nanResult a a

/-- The absolute value, rounded. -/
def abs : Decimal → Except DecimalSignal Decimal
  | .finite _ m e => fit precision false m e
  | .infinite _ => .ok (.infinite false)
  | a => nanResult a a

/-- The product. -/
def mul : Decimal → Decimal → Except DecimalSignal Decimal
  | .finite s m e, .finite t n f => fit precision (s != t) (m * n) (e + f)
  | .infinite s, .infinite t => .ok (.infinite (s != t))
  | .infinite s, .finite t n _ => if n = 0 then .error .invalid else .ok (.infinite (s != t))
  | .finite s m _, .infinite t => if m = 0 then .error .invalid else .ok (.infinite (s != t))
  | a, b => nanResult a b

/-- Drop trailing zeros until the exponent reaches `ideal`. -/
def dropZeros (digits : Nat) (exponent ideal : Int) : Nat → Nat × Int
  | 0 => (digits, exponent)
  | fuel + 1 =>
    if exponent < ideal ∧ digits % 10 = 0 then dropZeros (digits / 10) (exponent + 1) ideal fuel
    else (digits, exponent)

/-- The quotient of nonzero finite numbers to `keep` digits. -/
def quotient (keep : Nat) (negative : Bool) (m : Nat) (e : Int) (n : Nat) (f : Int) :
    Except DecimalSignal Decimal :=
  let shift : Int := (decimalLength n : Int) - decimalLength m + keep + 1
  let exponent := e - f - shift
  -- one of the two powers is one
  let num := m * Nat.pow 10 shift.toNat
  let den := n * Nat.pow 10 (-shift).toNat
  let digits := num / den
  if num % den = 0 then
    let kept := dropZeros digits exponent (e - f) (decimalLength digits)
    fit keep negative kept.1 kept.2
  else
    -- an inexact digit string must not look like a tie
    fit keep negative (if digits % 5 = 0 then digits + 1 else digits) exponent

/-- The quotient to `keep` digits. -/
def divTo (keep : Nat) : Decimal → Decimal → Except DecimalSignal Decimal
  | .finite s m e, .finite t n f =>
    if n = 0 then .error (if m = 0 then .invalid else .divisionByZero)
    else if m = 0 then fit keep (s != t) 0 (e - f)
    else quotient keep (s != t) m e n f
  | .infinite _, .infinite _ => .error .invalid
  | .infinite s, .finite t _ _ => .ok (.infinite (s != t))
  | .finite s _ _, .infinite t => .ok (.finite (s != t) 0 (leastExponent keep))
  | a, b => nanResult a b

/-- The quotient. -/
def div (a b : Decimal) : Except DecimalSignal Decimal :=
  divTo precision a b

/-- The square root to `keep` digits. -/
def sqrtTo (keep : Nat) : Decimal → Except DecimalSignal Decimal
  | .finite s m e =>
    if m = 0 then fit keep s 0 (e.fdiv 2)
    else if s then .error .invalid
    else
      let odd := e.emod 2 = 1
      let square := if odd then m * 10 else m
      let half := if odd then decimalLength m / 2 + 1 else (decimalLength m + 1) / 2
      let shift : Int := (keep : Int) + 1 - half
      let scale := Nat.pow 100 shift.natAbs
      let scaled := if 0 ≤ shift then square * scale else square / scale
      let root := floorSqrt scaled
      let exactly := root * root = scaled ∧ (0 ≤ shift ∨ square % scale = 0)
      let exponent := e.fdiv 2 - shift
      if exactly then
        if 0 ≤ shift then fit keep false (root / Nat.pow 10 shift.toNat) (exponent + shift)
        else fit keep false (root * Nat.pow 10 shift.natAbs) (exponent + shift)
      else fit keep false (if root % 5 = 0 then root + 1 else root) exponent
  | .infinite s => if s then .error .invalid else .ok (.infinite false)
  | a => nanResult a a

/-- The square root to as many digits as the operand has, and to no fewer than
arithmetic keeps. -/
def sqrt (a : Decimal) : Except DecimalSignal Decimal :=
  match a with
  | .finite _ m _ => sqrtTo (max precision (decimalLength m)) a
  | _ => sqrtTo precision a

/-- A number rounded half-even to `places` decimals; the result must fit in
the precision. -/
def roundTo (places : Int) : Decimal → Except DecimalSignal Decimal
  | .finite s m e =>
    let target := -places
    if target < leastExponent precision ∨ maxExponent < target then .error .invalid
    else if m = 0 then fit precision s 0 target
    else
      let first := adjusted m e
      if maxExponent < first ∨ (precision : Int) < first - target + 1 then .error .invalid
      else
        let digits :=
          if target ≤ e then m * Nat.pow 10 (e - target).toNat
          else if first < target - 1 then 0
          else roundHalfEven m (Nat.pow 10 (target - e).toNat)
        if maxExponent < adjusted digits target ∨ precision < decimalLength digits then
          .error .invalid
        else fit precision s digits target
  | .infinite _ => .error .invalid
  | a => nanResult a a

end Decimal

end ExactRoots
