import ExactRoots.Binary64.Dyadic

/-!
# Decimal text of doubles

The shortest decimal that reads back as a double, and its written form:
positional from `10 ^ -4` up to `10 ^ 16` and scientific outside, with a
two-digit exponent.  Also text with a fixed number of places.
-/

namespace ExactRoots.Binary64

/-- Twice the distances from `mantissa` to the ends of the interval of numbers
that round to the same double, in units of a quarter of the last place: the
lower end is nearer at a power of two. -/
def halfGaps (d : Dyadic) : Nat × Nat :=
  if d.mantissa = Nat.pow 2 52 ∧ -1074 < d.exponent then (1, 2) else (2, 2)

/-- The exponent of the leading decimal digit of `num / den`. -/
def leadingExponent (num den : Nat) : Int :=
  let estimate : Int := ((num.log2 : Int) - den.log2 - 1) * 30103 / 100000 - 1
  settle estimate 4
where
  /-- Whether `10 ^ exponent` is at most the quotient. -/
  reaches (exponent : Int) : Bool :=
    if 0 ≤ exponent then den * Nat.pow 10 exponent.toNat ≤ num
    else den ≤ num * Nat.pow 10 (-exponent).toNat
  /-- Raise the exponent while the next power of ten is still reached. -/
  settle (exponent : Int) : Nat → Int
    | 0 => exponent
    | fuel + 1 => if reaches (exponent + 1) then settle (exponent + 1) fuel else exponent

/-- The multiple of `10 ^ unit` nearest to the double among the two beside it
that read back as it, if one does. -/
def onGrid? (d : Dyadic) (unit : Int) : Option Nat :=
  -- everything in quarters of the last binary place, over a common denominator
  let (below, above) := halfGaps d
  let quarter := d.exponent - 2
  let binary := if 0 ≤ quarter then Nat.pow 2 quarter.toNat else 1
  let binaryDen := if 0 ≤ quarter then 1 else Nat.pow 2 (-quarter).toNat
  let step := (if 0 ≤ unit then Nat.pow 10 unit.toNat else 1) * binaryDen
  let scale := (if 0 ≤ unit then 1 else Nat.pow 10 (-unit).toNat) * binary
  let value := 4 * d.mantissa * scale
  let low := (4 * d.mantissa - below) * scale
  let high := (4 * d.mantissa + above) * scale
  let inside (k : Nat) : Bool :=
    let point := k * step
    if d.mantissa % 2 = 0 then low ≤ point && point ≤ high else low < point && point < high
  let under := value / step
  let upper := under + 1
  match inside under, inside upper with
  | true, true =>
    let (toUnder, toOver) := (value - under * step, upper * step - value)
    if toUnder < toOver ∨ (toUnder = toOver ∧ under % 2 = 0) then some under else some upper
  | true, false => some under
  | false, true => some upper
  | false, false => none

/-- The digits and the exponent of the shortest decimal that reads back as a
nonzero finite double, the nearest of those. -/
def shortest (d : Dyadic) : Nat × Int :=
  let (num, den) := d.ratio
  let leading := leadingExponent num den
  search leading 17
where
  /-- Try ever finer grids. -/
  search (unit : Int) : Nat → Nat × Int
    | 0 => (d.mantissa, d.exponent)
    | fuel + 1 =>
      match onGrid? d unit with
      | some digits => (digits, unit)
      | none => search (unit - 1) fuel

/-- Zeros as text. -/
def zeros (count : Nat) : String :=
  String.ofList (List.replicate count '0')

/-- The written form of `digits * 10 ^ exponent`, without a point when it has
no fractional digits. -/
def writeDecimal (digits : Nat) (exponent : Int) : String :=
  let text := toString digits
  let trimmed := (text.toList.reverse.dropWhile (· == '0')).reverse
  let count := trimmed.length
  -- the place of the point, counted from the left of the first digit
  let point : Int := text.length + exponent
  if -4 < point ∧ point ≤ 16 then
    if point ≤ 0 then "0." ++ zeros (-point).toNat ++ String.ofList trimmed
    else if count ≤ point.toNat then String.ofList trimmed ++ zeros (point.toNat - count)
    else String.ofList (trimmed.take point.toNat) ++ "." ++ String.ofList (trimmed.drop point.toNat)
  else
    let power := point - 1
    let size := toString power.natAbs
    let mantissa :=
      if count = 1 then String.ofList trimmed
      else String.ofList (trimmed.take 1) ++ "." ++ String.ofList (trimmed.drop 1)
    mantissa ++ "e" ++ (if power < 0 then "-" else "+")
      ++ (if size.length < 2 then "0" else "") ++ size

/-- The text of a double inside a complex number: no point when it is whole. -/
def partText (x : Float) : String :=
  match dyadic? x with
  | none => if x.isNaN then "nan" else if isNegative x then "-inf" else "inf"
  | some d =>
    let sign := if d.negative then "-" else ""
    if d.mantissa = 0 then sign ++ "0"
    else
      let (digits, exponent) := shortest d
      sign ++ writeDecimal digits exponent

/-- The text of a double: always with a point or an exponent when it is
finite. -/
def text (x : Float) : String :=
  let plain := partText x
  if x.isFinite && plain.toList.all (fun c => c.isDigit || c == '-') then plain ++ ".0" else plain

/-- A finite double with exactly `places` decimals, a tie going to the even
neighbour. -/
def fixedText (d : Dyadic) (places : Nat) : String :=
  let (num, den) := d.ratio
  let digits := (toString (roundHalfEven (num * Nat.pow 10 places) den)).toList
  let padded := List.replicate (places + 1 - digits.length) '0' ++ digits
  let split := padded.length - places
  (if d.negative then "-" else "") ++ String.ofList (padded.take split)
    ++ (if places = 0 then "" else "." ++ String.ofList (padded.drop split))

end ExactRoots.Binary64
