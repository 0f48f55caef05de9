import ExactRoots.Inexact
import Mathlib

/-!
# The order of doubles

Every double but NaN has a place in a linear order: the sign decides first, then
the exponent and then the mantissa, since finite doubles are in canonical form.
Comparisons of doubles are comparisons of places.
-/

namespace ExactRoots.Binary64

open Float.Model

/-- Places of doubles: the class, and within a class the exponent and then the
mantissa. -/
abbrev Place := ℤ ×ₗ ℤ ×ₗ ℤ

/-- The place with the given class, exponent and mantissa. -/
def Place.of (rank exponent mantissa : ℤ) : Place := toLex (rank, toLex (exponent, mantissa))

/-- The place of an unpacked double; NaN has none. -/
def unpackedPlace? : UnpackedFloat → Option Place
  | .notANumber => none
  | .infinity .negative => some (.of (-2) 0 0)
  | .finite .negative m e _ => some (.of (-1) (-e) (-m))
  | .zero _ => some (.of 0 0 0)
  | .finite .positive m e _ => some (.of 1 e m)
  | .infinity .positive => some (.of 2 0 0)

/-- The place of a double. -/
def place? (x : Float) : Option Place := unpackedPlace? x.toModel.unpack

/-- Places are compared by class, exponent and mantissa in this order. -/
theorem Place.compare_of (r₁ e₁ m₁ r₂ e₂ m₂ : ℤ) :
    compare (Place.of r₁ e₁ m₁) (.of r₂ e₂ m₂) =
      (compare r₁ r₂).then ((compare e₁ e₂).then (compare m₁ m₂)) := rfl

theorem compare_neg_neg (a b : ℤ) : compare (-a) (-b) = (compare a b).swap := by
  rcases lt_trichotomy a b with less | rfl | greater
  · rw [compare_lt_iff_lt.mpr less, compare_gt_iff_gt.mpr (Int.neg_lt_neg less)]
    rfl
  · simp
  · rw [compare_gt_iff_gt.mpr greater, compare_lt_iff_lt.mpr (Int.neg_lt_neg greater)]
    rfl

theorem compare_natCast (m n : Nat) : compare (m : ℤ) (n : ℤ) = compare m n := by
  rcases lt_trichotomy m n with less | rfl | greater
  · rw [compare_lt_iff_lt.mpr less, compare_lt_iff_lt.mpr (Int.ofNat_lt.mpr less)]
  · simp
  · rw [compare_gt_iff_gt.mpr greater, compare_gt_iff_gt.mpr (Int.ofNat_lt.mpr greater)]

/-- Comparing unpacked doubles compares their places. -/
theorem compare_eq_places (u v : UnpackedFloat) :
    u.compare v = (unpackedPlace? u).bind fun a => (unpackedPlace? v).map fun b => compare a b := by
  -- the classes decide, except for finite doubles of one sign
  rcases u with (_ | _) | _ | _ | ⟨_ | _, m, e, positive⟩ <;>
    rcases v with (_ | _) | _ | _ | ⟨_ | _, n, k, positive'⟩ <;> try rfl
  case finite.negative.finite.negative =>
    simp [UnpackedFloat.compare, unpackedPlace?, Place.compare_of, compare_neg_neg,
      compare_natCast, Ordering.swap_then]
  case finite.positive.finite.positive =>
    simp [UnpackedFloat.compare, unpackedPlace?, Place.compare_of, compare_natCast]

/-- What is asked of the comparison of two doubles is asked of their places, where both have one. -/
theorem compare_iff_places {x y : Float} (test : Option Ordering → Bool)
    (undefined : test none = false) :
    test (x.toModel.unpack.compare y.toModel.unpack) = true ↔
      ∃ a b, place? x = some a ∧ place? y = some b ∧ test (some (compare a b)) = true := by
  rw [compare_eq_places, ← place?, ← place?]
  cases place? x with
  | none => simp [undefined]
  | some a =>
    cases place? y with
    | none => simp [undefined]
    | some b => simp

theorem le_iff_places {x y : Float} :
    x ≤ y ↔ ∃ a b, place? x = some a ∧ place? y = some b ∧ a ≤ b := by
  have unfolded : x ≤ y ↔ (x.toModel.unpack.compare y.toModel.unpack).any (·.isLE) = true :=
    decide_eq_true_iff
  rw [unfolded, compare_iff_places (·.any (·.isLE)) rfl]
  simp [← Ordering.ne_gt_iff_isLE, compare_le_iff_le]

theorem lt_iff_places {x y : Float} :
    x < y ↔ ∃ a b, place? x = some a ∧ place? y = some b ∧ a < b := by
  have unfolded : x < y ↔ (x.toModel.unpack.compare y.toModel.unpack == some .lt) = true :=
    decide_eq_true_iff
  rw [unfolded, compare_iff_places (· == some .lt) rfl]
  simp [compare_lt_iff_lt]

theorem isNaN_eq_false_iff {x : Float} : x.isNaN = false ↔ ∃ a, place? x = some a := by
  have unfolded : x.isNaN = x.toModel.unpack.isNaN := rfl
  rw [unfolded, place?]
  rcases x.toModel.unpack with (_ | _) | _ | _ | ⟨_ | _, m, e, positive⟩ <;>
    simp [UnpackedFloat.isNaN, unpackedPlace?]

/-! ## Order laws -/

theorem le_refl {x : Float} (number : x.isNaN = false) : x ≤ x := by
  rcases isNaN_eq_false_iff.mp number with ⟨a, place⟩
  exact le_iff_places.mpr ⟨a, a, place, place, le_rfl⟩

theorem le_trans {x y z : Float} (first : x ≤ y) (second : y ≤ z) : x ≤ z := by
  rcases le_iff_places.mp first with ⟨a, b, xPlace, yPlace, below⟩
  rcases le_iff_places.mp second with ⟨b', c, yPlace', zPlace, above⟩
  obtain rfl : b = b' := Option.some.inj (yPlace.symm.trans yPlace')
  exact le_iff_places.mpr ⟨a, c, xPlace, zPlace, below.trans above⟩

theorem le_of_lt {x y : Float} (less : x < y) : x ≤ y := by
  rcases lt_iff_places.mp less with ⟨a, b, xPlace, yPlace, below⟩
  exact le_iff_places.mpr ⟨a, b, xPlace, yPlace, below.le⟩

theorem lt_trans {x y z : Float} (first : x < y) (second : y < z) : x < z := by
  rcases lt_iff_places.mp first with ⟨a, b, xPlace, yPlace, below⟩
  rcases lt_iff_places.mp second with ⟨b', c, yPlace', zPlace, above⟩
  obtain rfl : b = b' := Option.some.inj (yPlace.symm.trans yPlace')
  exact lt_iff_places.mpr ⟨a, c, xPlace, zPlace, below.trans above⟩

theorem not_lt_self (x : Float) : ¬ x < x := by
  intro less
  rcases lt_iff_places.mp less with ⟨a, b, place, place', below⟩
  obtain rfl : a = b := Option.some.inj (place.symm.trans place')
  exact below.ne rfl

/-- What is not below a double is not below any that is at most that. -/
theorem not_lt_of_le_of_not_lt {x y z : Float} (atMost : y ≤ z) (notLess : ¬ x < z) : ¬ x < y := by
  intro less
  rcases lt_iff_places.mp less with ⟨a, b, xPlace, yPlace, below⟩
  rcases le_iff_places.mp atMost with ⟨b', c, yPlace', zPlace, above⟩
  obtain rfl : b = b' := Option.some.inj (yPlace.symm.trans yPlace')
  exact notLess (lt_iff_places.mpr ⟨a, c, xPlace, zPlace, below.trans_le above⟩)

/-- Doubles other than NaN are linearly ordered. -/
theorem not_lt {x y : Float} (xNumber : x.isNaN = false) (yNumber : y.isNaN = false) :
    ¬ x < y ↔ y ≤ x := by
  rcases isNaN_eq_false_iff.mp xNumber with ⟨a, xPlace⟩
  rcases isNaN_eq_false_iff.mp yNumber with ⟨b, yPlace⟩
  simp [lt_iff_places, le_iff_places, xPlace, yPlace]

theorem isNaN_of_lt {x y : Float} (less : x < y) : x.isNaN = false ∧ y.isNaN = false := by
  rcases lt_iff_places.mp less with ⟨a, b, xPlace, yPlace, -⟩
  exact ⟨isNaN_eq_false_iff.mpr ⟨a, xPlace⟩, isNaN_eq_false_iff.mpr ⟨b, yPlace⟩⟩

/-- A finite double is a number. -/
theorem isNaN_of_isFinite {x : Float} (finite : x.isFinite = true) : x.isNaN = false := by
  have unpacked : ∀ u : UnpackedFloat, u.isFinite = true → u.isNaN = false := by
    rintro (_ | _ | _ | _) <;> simp [UnpackedFloat.isNaN, UnpackedFloat.isFinite]
  exact unpacked x.toModel.unpack finite

/-- A finite double is not infinite. -/
theorem isInf_of_isFinite {x : Float} (finite : x.isFinite = true) : x.isInf = false := by
  have unpacked : ∀ u : UnpackedFloat, u.isFinite = true → u.isInf = false := by
    rintro (_ | _ | _ | _) <;> simp [UnpackedFloat.isInf, UnpackedFloat.isFinite]
  exact unpacked x.toModel.unpack finite

/-! ## Zero -/

/-- The place of both zeros. -/
def Place.zero : Place := .of 0 0 0

theorem beq_iff_places {x y : Float} :
    (x == y) = true ↔ ∃ a, place? x = some a ∧ place? y = some a := by
  have unfolded : (x == y) = (x.toModel.unpack.compare y.toModel.unpack == some .eq) := rfl
  rw [unfolded, compare_iff_places (· == some .eq) rfl]
  simp only [beq_iff_eq, Option.some.injEq, compare_eq_iff_eq]
  constructor
  · rintro ⟨a, _, xPlace, yPlace, rfl⟩
    exact ⟨a, xPlace, yPlace⟩
  · rintro ⟨a, xPlace, yPlace⟩
    exact ⟨a, a, xPlace, yPlace, rfl⟩

theorem place?_zero : place? 0.0 = some .zero := by decide

theorem beq_zero_iff {x : Float} : (x == 0.0) = true ↔ place? x = some .zero := by
  rw [beq_iff_places]
  constructor
  · rintro ⟨a, xPlace, zeroPlace⟩
    rw [xPlace, ← zeroPlace, place?_zero]
  · intro xPlace
    exact ⟨.zero, xPlace, place?_zero⟩

theorem unpackedPlace?_eq_zero_iff {u : UnpackedFloat} :
    unpackedPlace? u = some .zero ↔ ∃ sign, u = .zero sign := by
  rcases u with (_ | _) | _ | _ | ⟨_ | _, m, e, positive⟩ <;>
    simp [unpackedPlace?, Place.zero, Place.of]

/-- A bit pattern is one of zero if its exponent and its mantissa are. -/
theorem unpack_eq_zero_iff {bits : BitVec 64} :
    (∃ sign, UnpackedFloat.unpack Format.binary64 bits = .zero sign) ↔
      (@UnpackedFloat.unpackExponent Format.binary64 bits).toNat = 0 ∧
        (@UnpackedFloat.unpackMantissa Format.binary64 bits).toNat = 0 := by
  have subnormal : @UnpackedFloat.unpackExponent Format.binary64 bits = 0#_ ↔
      (@UnpackedFloat.unpackExponent Format.binary64 bits).toNat = 0 := by
    rw [← BitVec.toNat_inj]
    rfl
  have vanishes : @UnpackedFloat.unpackMantissa Format.binary64 bits = 0#_ ↔
      (@UnpackedFloat.unpackMantissa Format.binary64 bits).toNat = 0 := by
    rw [← BitVec.toNat_inj]
    rfl
  rw [← subnormal, ← vanishes, UnpackedFloat.unpack]
  dsimp only
  split
  next special =>
    rw [special]
    split <;> simp
  next =>
    split
    next zero => split <;> simp_all
    next => simp_all

theorem toNat_unpackExponent (x : Float) :
    (@UnpackedFloat.unpackExponent Format.binary64 x.toBits.toBitVec).toNat =
      x.toBits.toNat / Nat.pow 2 52 % Nat.pow 2 11 := by
  simp [UnpackedFloat.unpackExponent, Nat.shiftRight_eq_div_pow]

theorem toNat_unpackMantissa (x : Float) :
    (@UnpackedFloat.unpackMantissa Format.binary64 x.toBits.toBitVec).toNat =
      x.toBits.toNat % Nat.pow 2 52 := by
  simp [UnpackedFloat.unpackMantissa]

theorem beq_zero_iff_unpack {x : Float} :
    (x == 0.0) = true ↔ ∃ sign, x.toModel.unpack = .zero sign := by
  rw [beq_zero_iff, place?, unpackedPlace?_eq_zero_iff]

/-- Both fields of a zero are zero. -/
theorem beq_zero_iff_fields {x : Float} :
    (x == 0.0) = true ↔
      x.toBits.toNat / Nat.pow 2 52 % Nat.pow 2 11 = 0 ∧ x.toBits.toNat % Nat.pow 2 52 = 0 := by
  have unfolded : x.toModel.unpack = UnpackedFloat.unpack Format.binary64 x.toBits.toBitVec := rfl
  rw [beq_zero_iff_unpack, unfolded, unpack_eq_zero_iff, toNat_unpackExponent,
    toNat_unpackMantissa]

theorem isInf_of_beq_zero {x : Float} (zero : (x == 0.0) = true) :
    x.isInf = false ∧ x.isNaN = false := by
  rcases beq_zero_iff_unpack.mp zero with ⟨sign, unpacked⟩
  have infinite : x.isInf = x.toModel.unpack.isInf := rfl
  have undefined : x.isNaN = x.toModel.unpack.isNaN := rfl
  rw [infinite, undefined, unpacked]
  exact ⟨rfl, rfl⟩

/-- The mantissa decides whether a finite double is zero. -/
theorem beq_zero_of_dyadic? {x : Float} {d : Dyadic} (finite : dyadic? x = some d) :
    (x == 0.0) = (d.mantissa == 0) := by
  rw [Bool.eq_iff_iff, beq_zero_iff_fields]
  simp only [dyadic?] at finite
  split at finite
  next => contradiction
  next =>
    split at finite
    next zero =>
      obtain rfl := Option.some.inj finite
      simp [zero]
    next normal =>
      obtain rfl := Option.some.inj finite
      simp [normal]

/-- A zero is finite and has no mantissa. -/
theorem dyadic?_of_beq_zero {x : Float} (zero : (x == 0.0) = true) :
    ∃ d, dyadic? x = some d ∧ d.mantissa = 0 := by
  rcases beq_zero_iff_fields.mp zero with ⟨exponent, mantissa⟩
  simp [dyadic?, exponent, mantissa]

theorem numerator_eq_zero_iff {d : Dyadic} : d.ratio.1 = 0 ↔ d.mantissa = 0 := by
  rw [Dyadic.ratio]
  split
  · have positive : Nat.pow 2 d.exponent.toNat ≠ 0 := Nat.ne_of_gt (Nat.two_pow_pos _)
    rw [Nat.mul_eq_zero, or_iff_left positive]
  · rfl

theorem toRat?_of_beq_zero {x : Float} (zero : (x == 0.0) = true) : toRat? x = some 0 := by
  rcases dyadic?_of_beq_zero zero with ⟨d, form, mantissa⟩
  simp [toRat?, form, Dyadic.toRat, numerator_eq_zero_iff.mpr mantissa]

/-- A zero is an integer. -/
theorem toInt?_of_beq_zero {x : Float} (zero : (x == 0.0) = true) : toInt? x = some 0 := by
  rcases dyadic?_of_beq_zero zero with ⟨d, form, mantissa⟩
  simp [toInt?, form, Dyadic.isIntegral, Dyadic.truncate, numerator_eq_zero_iff.mpr mantissa]

/-- An integral dyadic number is zero exactly when its mantissa is. -/
theorem truncate_eq_zero_iff {d : Dyadic} (integral : d.isIntegral = true) :
    d.truncate = 0 ↔ d.mantissa = 0 := by
  have divides : d.ratio.2 ∣ d.ratio.1 :=
    Nat.dvd_of_mod_eq_zero (by simpa [Dyadic.isIntegral] using integral)
  have size : d.truncate = 0 ↔ d.ratio.1 / d.ratio.2 = 0 := by
    simp only [Dyadic.truncate]
    split <;> omega
  rw [size, ← numerator_eq_zero_iff]
  constructor
  · exact Nat.eq_zero_of_dvd_of_div_eq_zero divides
  · intro zero
    rw [zero, Nat.zero_div]

/-- An integral double is zero exactly when its integer is. -/
theorem beq_zero_of_toInt? {x : Float} {n : Int} (integral : toInt? x = some n) :
    (x == 0.0) = (n == 0) := by
  rcases Option.bind_eq_some_iff.mp integral with ⟨d, finite, truncated⟩
  split at truncated
  next whole =>
    obtain rfl := Option.some.inj truncated
    rw [beq_zero_of_dyadic? finite, Bool.eq_iff_iff]
    simp [truncate_eq_zero_iff whole]
  next => contradiction

end ExactRoots.Binary64
