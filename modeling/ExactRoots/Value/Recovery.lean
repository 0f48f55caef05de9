import ExactRoots.Value.Conversion

/-!
# Recovering fractions

The fraction of bounded denominator nearest to a rational, by continued
fractions, and its use on doubles and decimals: a value that lies close enough
to a simple fraction is replaced by it.
-/

namespace ExactRoots

/-- Two neighbouring convergents `p₀/q₀` and `p₁/q₁` of a continued
fraction. -/
structure Convergents where
  p₀ : Int
  q₀ : Int
  p₁ : Int
  q₁ : Int

/-- Extend the convergents of `num / den` while the denominator stays within
the bound. -/
def Convergents.extend (bound : Int) (c : Convergents) (num : Int) (den : Nat) : Convergents :=
  if _ : den = 0 then c
  else
    let a := num.fdiv den
    let q₂ := c.q₀ + a * c.q₁
    if bound < q₂ then c
    else extend bound ⟨c.p₁, c.q₁, c.p₀ + a * c.p₁, q₂⟩ den (num - a * den).toNat
termination_by den
decreasing_by
  have positive : (0 : Int) < den := by omega
  have below := Int.emod_lt_of_pos num positive
  have quotient : num.fdiv den = num / den :=
    Int.fdiv_eq_ediv_of_nonneg num (Int.le_of_lt positive)
  have division := Int.mul_ediv_add_emod num den
  have swap : num / (den : Int) * den = den * (num / den) := Int.mul_comm _ _
  rw [quotient, swap]
  omega

/-- A fraction nearest to `q` among those with denominators up to `bound`; of
two equally near the later convergent. -/
def limitDenominator (bound : Nat) (q : Rat) : Rat :=
  if q.den ≤ bound then q
  else
    let c := Convergents.extend bound ⟨0, 1, 1, 0⟩ q.num q.den
    let k := ((bound : Int) - c.q₀).fdiv c.q₁
    let first := Rat.divInt (c.p₀ + k * c.p₁) (c.q₀ + k * c.q₁)
    let second := Rat.divInt c.p₁ c.q₁
    if (second - q).abs ≤ (first - q).abs then second else first

namespace Value

/-- The bound of a denominator as a positive number. -/
def denominatorBound (bound : Int) : Except Fault Nat :=
  if bound < 1 then .error .malformed else .ok bound.toNat

/-- The rational that a finite double or decimal denotes. -/
def approximated? : Value → Except Fault (Option Rat)
  | .inexact (.real x) => .ok (Binary64.toRat? x)
  | .decimal d =>
    match d.toFloat? with
    | some x => .ok (if x.isFinite then d.toRat? else none)
    | none => .error .malformed
  | _ => .ok none

/-- A value without imaginary part as a fraction: rounded to `places` decimals
if that has a denominator within the bound, or else the nearest fraction within
the bound if it is within `10 ^ -places`.  Any other value stays as it is. -/
def recoverReal (bound places : Int) (v : Value) : Except Fault Value := do
  let v := v.tidy
  match ← approximated? v with
  | none => return v
  | some q =>
    let rounded := roundRationalTo q places
    if (rounded.den : Int) ≤ bound then return ofRat rounded
    else
      let nearest := limitDenominator (← denominatorBound bound) q
      if (nearest - q).abs ≤ 1 / (Nat.pow 10 places.toNat : Nat) then return ofRat nearest
      else return v

/-- A value converted to fractions part by part. -/
def recover (bound places : Int) (v : Value) : Except Fault Value := do
  if v.isComplex then
    makeComplex (← recoverReal bound places v.realPart) (← recoverReal bound places v.imagPart)
  else recoverReal bound places v

/-- A double replaced by the nearest fraction with a denominator within the
bound; any other value without imaginary part stays as it is. -/
def nearestReal (bound : Int) : Value → Except Fault Value
  | .inexact (.real x) =>
    match Binary64.toRat? x with
    | some q => do return ofRat (limitDenominator (← denominatorBound bound) q)
    | none => .error (if x.isNaN then .malformed else .overflow)
  | v => .ok v

/-- A value with every double part replaced by the nearest fraction with a
denominator within the bound. -/
def nearestRational (bound : Int) (v : Value) : Except Fault Value := do
  makeComplex (← nearestReal bound v.realPart) (← nearestReal bound v.imagPart)

end Value

end ExactRoots
