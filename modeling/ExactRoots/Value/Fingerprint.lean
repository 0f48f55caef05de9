import ExactRoots.Value.Comparison

/-!
# Fingerprints

A number that equal values share, whatever their kind: the residue of the
number modulo the prime `2 ^ 61 - 1`.  Values with different fingerprints are
different; NaN and expressions have none.
-/

namespace ExactRoots.Value

/-- The modulus of fingerprints, a prime. -/
def fingerprintPrime : Nat := Nat.pow 2 61 - 1

/-- The fingerprint of an infinity, and of a fraction whose denominator the
prime divides. -/
def infinityFingerprint : Int := 314159

/-- A power modulo the prime. -/
def powerModulo (base : Nat) : (exponent fuel : Nat) → Nat
  | _, 0 => 1
  | exponent, fuel + 1 =>
    if exponent = 0 then 1
    else
      let half := powerModulo base (exponent / 2) fuel
      let square := half * half % fingerprintPrime
      if exponent % 2 = 1 then square * base % fingerprintPrime else square

/-- Minus one stands for a failure and is avoided. -/
def avoidMinusOne (n : Int) : Int := if n = -1 then -2 else n

/-- The fingerprint of a rational. -/
def rationalFingerprint (q : Rat) : Int :=
  let den := q.den % fingerprintPrime
  let size : Int :=
    if den = 0 then infinityFingerprint
    else
      let inverse := powerModulo den (fingerprintPrime - 2) 64
      ((q.num.natAbs % fingerprintPrime) * inverse % fingerprintPrime : Nat)
  avoidMinusOne (if q.num < 0 then -size else size)

/-- The fingerprint of what a real value denotes. -/
def standingFingerprint? : Standing → Option Int
  | .finite q => some (rationalFingerprint q)
  | .infinite negative => some (if negative then -infinityFingerprint else infinityFingerprint)
  | .undefined => none

/-- What tells a value apart: one number for a real one, two for a complex
one, and the parts themselves for an exact complex number. -/
inductive Fingerprint where
  | number (n : Int)
  | gaussian (re im : Rat)
  | text (s : String)
  | absent
  deriving DecidableEq

/-- The fingerprint of a value. -/
def fingerprint? : Value → Option Fingerprint
  | .exact re im _ => some (.gaussian re im)
  | .formal _ => none
  | .text s => some (.text s)
  | .absent => some .absent
  | .inexact (.complex re im) => do
    let a ← standingFingerprint? (.ofFloat re)
    let b ← standingFingerprint? (.ofFloat im)
    return .number (avoidMinusOne ((a + 1000003 * b).bmod (Nat.pow 2 64)))
  | v => (standingFingerprint? v.standing).map .number

/-- Whether the fingerprints of two lists agree entry by entry. -/
def fingerprintsAgree : List Value → List Value → Bool
  | [], [] => true
  | a :: as, b :: bs =>
    match fingerprint? a, fingerprint? b with
    | some p, some q => p == q && fingerprintsAgree as bs
    | _, _ => false
  | _, _ => false

end ExactRoots.Value
