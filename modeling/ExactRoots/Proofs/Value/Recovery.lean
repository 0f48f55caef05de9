import ExactRoots.Proofs.Binary64.Order
import ExactRoots.Proofs.Natural.Rounding
import ExactRoots.Proofs.Value.Convergents
import ExactRoots.Proofs.Value.Exact

/-!
# Recovering Gaussian rationals

Fractions with denominators up to a bound lie further apart than two units of a
decimal place that is fine enough.  A number within one unit of such a fraction
is therefore converted to it, whichever way the conversion takes, and so is a
complex number part by part.
-/

namespace ExactRoots

section Separation

variable {bound places : Nat} {q r : Rat} (fine : 2 * bound ^ 2 < 10 ^ places)
  (small : r.den ≤ bound)

include fine small

/-- Fractions of bounded denominators within two units of a place that is fine enough are
equal. -/
theorem eq_of_near {p : Rat} (bounded : p.den ≤ bound) (near : |p - r| ≤ 2 * (1 / 10 ^ places)) :
    p = r := by
  refine eq_of_den_le_of_close bounded small ?_
  have unit : (0 : Rat) < 10 ^ places := by positivity
  have square : (2 * bound ^ 2 : Rat) < 10 ^ places := by exact_mod_cast fine
  calc |p - r| * bound ^ 2
      ≤ 2 * (1 / 10 ^ places) * bound ^ 2 := mul_le_mul_of_nonneg_right near (by positivity)
    _ = 1 / 10 ^ places * (2 * bound ^ 2) := by ring
    _ < 1 / 10 ^ places * 10 ^ places := mul_lt_mul_of_pos_left square (by positivity)
    _ = 1 := one_div_mul_cancel unit.ne'

variable (near : |q - r| ≤ 1 / 10 ^ places)

include near

/-- An integer near to a fraction of bounded denominator is that fraction. -/
theorem eq_of_near_of_den_eq_one (whole : q.den = 1) : q = r := by
  have positive : 1 ≤ bound := r.den_pos.trans_le small
  refine eq_of_near fine small (whole.trans_le positive) (near.trans ?_)
  exact le_mul_of_one_le_left (by positivity) one_le_two

/-- Rounding to decimals leads to no other fraction of bounded denominator. -/
theorem roundRationalTo_eq_of_near (bounded : (roundRationalTo q places).den ≤ bound) :
    roundRationalTo q places = r := by
  have rounded := abs_roundRationalTo_sub_le q places
  rw [zpow_neg, zpow_natCast, ← one_div] at rounded
  have unit : 0 < 1 / (10 ^ places : Rat) := by positivity
  refine eq_of_near fine small bounded ?_
  linarith [abs_sub_le (roundRationalTo q places) q r]

/-- The nearest fraction of bounded denominator is the near one. -/
theorem limitDenominator_eq_of_near : limitDenominator bound q = r := by
  rcases limitDenominator_nearest (r.den_pos.trans_le small) q with ⟨bounded, nearest⟩
  refine eq_of_near fine small bounded ?_
  calc |limitDenominator bound q - r|
      ≤ |limitDenominator bound q - q| + |q - r| := abs_sub_le _ _ _
    _ ≤ |r - q| + |q - r| := add_le_add_left (nearest r small) _
    _ = 2 * |q - r| := by rw [abs_sub_comm r q, two_mul]
    _ ≤ 2 * (1 / 10 ^ places) := mul_le_mul_of_nonneg_left near two_pos.le

end Separation

namespace Value

open Outcome

/-! ## Real values -/

/-- The rational that an integer or a finite double denotes. -/
def point? : Value → Option Rat
  | .int n => some n
  | .inexact (.real x) => Binary64.toRat? x
  | _ => none

theorem point?_eq_some_cases {v : Value} {q : Rat} (located : v.point? = some q) :
    (∃ n : Int, v = .int n ∧ q = n) ∨ ∃ x, v = .float x ∧ Binary64.toRat? x = some q := by
  cases v with
  | int n => exact .inl ⟨n, rfl, (Option.some.inj located).symm⟩
  | inexact x =>
    cases x with
    | real x => exact .inr ⟨x, rfl, located⟩
    | complex re im => contradiction
  | _ => contradiction

theorem tidy_of_point? {v : Value} {q : Rat} (located : v.point? = some q) : v.tidy = v := by
  obtain ⟨n, rfl, -⟩ | ⟨x, rfl, -⟩ := point?_eq_some_cases located <;> rfl

theorem denominatorBound_of_pos {bound : Nat} (positive : 1 ≤ bound) :
    denominatorBound bound = .ok bound := by
  have large : ¬ (bound : Int) < 1 := by omega
  rw [denominatorBound, if_neg large, Int.toNat_natCast]

section Real

variable {bound places : Nat} {v : Value} {q r : Rat} (fine : 2 * bound ^ 2 < 10 ^ places)
  (small : r.den ≤ bound) (near : |q - r| ≤ 1 / 10 ^ places)

include fine small near

/-- A real value near to a fraction of bounded denominator is converted to it. -/
theorem recoverReal_of_near (located : v.tidy.point? = some q) :
    recoverReal bound places v = .ok (ofRat r) := by
  have positive : 1 ≤ bound := r.den_pos.trans_le small
  obtain ⟨n, tidied, rfl⟩ | ⟨x, tidied, finite⟩ := point?_eq_some_cases located
  · obtain rfl := eq_of_near_of_den_eq_one fine small near (Rat.den_intCast n)
    simp [recoverReal, tidied, approximated?, ofRat_intCast]
  · have found : limitDenominator bound q = r := limitDenominator_eq_of_near fine small near
    have accepted : (r - q).abs ≤ 1 / ((Nat.pow 10 (places : Int).toNat : Nat) : Rat) := by
      rw [rat_abs_eq, abs_sub_comm, Int.toNat_natCast, Nat.pow_eq, Nat.cast_pow, Nat.cast_ofNat]
      exact near
    simp only [recoverReal, tidied, approximated?, finite, ok_bind, Nat.cast_le]
    split
    next bounded => rw [roundRationalTo_eq_of_near fine small near bounded, pure_eq_ok]
    next =>
      simp only [denominatorBound_of_pos positive, ok_bind, found, if_pos accepted, pure_eq_ok]

/-- The nearest fraction of bounded denominator is the near one. -/
theorem nearestReal_of_near (located : v.point? = some q) :
    nearestReal bound v = .ok (ofRat r) := by
  have positive : 1 ≤ bound := r.den_pos.trans_le small
  obtain ⟨n, rfl, rfl⟩ | ⟨x, rfl, finite⟩ := point?_eq_some_cases located
  · obtain rfl := eq_of_near_of_den_eq_one fine small near (Rat.den_intCast n)
    simp [nearestReal, ofRat_intCast]
  · have found : limitDenominator bound q = r := limitDenominator_eq_of_near fine small near
    simp only [nearestReal, finite, denominatorBound_of_pos positive, ok_bind, found, pure_eq_ok]

end Real

/-! ## Complex values -/

/-- The Gaussian rational that an integer, a finite double or a floating complex number with
finite parts denotes. -/
def located? : Value → Option Gaussian
  | .int n => some (.ofRat n)
  | .inexact (.real x) => (Binary64.toRat? x).map .ofRat
  | .inexact (.complex re im) =>
    (Binary64.toRat? re).bind fun p => (Binary64.toRat? im).map fun q => ⟨p, q⟩
  | _ => none

/-- The parts of a value denote the parts of its number, which is real unless the value is
complex. -/
theorem parts_of_located? {v : Value} {u : Gaussian} (located : v.located? = some u) :
    v.realPart.point? = some u.re ∧ v.imagPart.point? = some u.im ∧
      (v.isComplex = false → v.tidy.point? = some u.re ∧ u.im = 0) := by
  cases v with
  | int n =>
    obtain rfl := Option.some.inj located
    exact ⟨rfl, rfl, fun _ => ⟨rfl, rfl⟩⟩
  | inexact x =>
    cases x with
    | real x =>
      rcases Option.map_eq_some_iff.mp located with ⟨q, finite, rfl⟩
      exact ⟨finite, rfl, fun _ => ⟨finite, rfl⟩⟩
    | complex re im =>
      rcases Option.bind_eq_some_iff.mp located with ⟨p, reFinite, rest⟩
      rcases Option.map_eq_some_iff.mp rest with ⟨q, imFinite, rfl⟩
      by_cases zero : (im == 0.0) = true
      · have tidied : tidy (.complex re im) = .float re := by
          simp [tidy, simplify, zero, ofFloat]
        obtain rfl : 0 = q := by
          rw [Binary64.toRat?_of_beq_zero zero] at imFinite
          exact Option.some.inj imFinite
        simp only [realPart, imagPart, isComplex, tidied]
        exact ⟨reFinite, rfl, fun _ => ⟨reFinite, trivial⟩⟩
      · have tidied : tidy (.complex re im) = .complex re im := by
          simp [tidy, simplify, zero]
        simp only [realPart, imagPart, isComplex, tidied]
        exact ⟨reFinite, imFinite, by simp⟩
  | _ => contradiction

section Near

variable {bound places : Nat} {v : Value} {u r : Gaussian} (fine : 2 * bound ^ 2 < 10 ^ places)
  (reSmall : r.re.den ≤ bound) (imSmall : r.im.den ≤ bound) (located : v.located? = some u)
  (reNear : |u.re - r.re| ≤ 1 / 10 ^ places) (imNear : |u.im - r.im| ≤ 1 / 10 ^ places)

include fine reSmall imSmall located reNear imNear

/-- A number near to a Gaussian rational of bounded denominators is converted to it. -/
theorem recover_of_near : recover bound places v = .ok (ofGaussian r) := by
  rcases parts_of_located? located with ⟨re, im, real⟩
  rw [recover]
  split
  next =>
    rw [recoverReal_of_near fine reSmall reNear (by rw [tidy_of_point? re, re]),
      recoverReal_of_near fine imSmall imNear (by rw [tidy_of_point? im, im])]
    exact makeComplex_of_gaussian? (gaussian?_ofRat r.re) (gaussian?_ofRat r.im)
  next notComplex =>
    rcases real (Bool.eq_false_iff.mpr notComplex) with ⟨tidied, axis⟩
    have onAxis : 0 = r.im := by
      rw [axis] at imNear
      exact eq_of_near_of_den_eq_one fine imSmall imNear rfl
    rw [recoverReal_of_near fine reSmall reNear tidied, ofGaussian, dif_pos onAxis.symm]

/-- The Gaussian rational of bounded denominators nearest to a number is the near one. -/
theorem nearestRational_of_near : nearestRational bound v = .ok (ofGaussian r) := by
  rcases parts_of_located? located with ⟨re, im, -⟩
  rw [nearestRational, nearestReal_of_near fine reSmall reNear re,
    nearestReal_of_near fine imSmall imNear im]
  exact makeComplex_of_gaussian? (gaussian?_ofRat r.re) (gaussian?_ofRat r.im)

end Near

end Value

end ExactRoots
