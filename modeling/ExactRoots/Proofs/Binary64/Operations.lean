import ExactRoots.Proofs.Binary64.Magnitude
import ExactRoots.Proofs.Binary64.Value

/-!
# Rounded operations

Sums, differences, products and quotients of doubles are the doubles nearest to the
exact results, and a square root lies among the doubles where the exact root does.
An operation computes a mantissa and whether the exact result is at it, below, at or
above the half of the next step; any rational at such a place is rounded alike.
-/

namespace ExactRoots.Binary64

open Float.Model
open UnpackedFloat (Accuracy ExtendedMantissa roundWithAccuracy shiftToTargetExponent)

/-! ## Accuracy -/

/-- Whether a rational is where a mantissa and its accuracy say. -/
def Describes (accuracy : Accuracy) (m : Nat) (w : Rat) : Prop :=
  match accuracy with
  | .exact => w = m
  | .inexact .lt => m < w ∧ w < m + 1 / 2
  | .inexact .eq => w = m + 1 / 2
  | .inexact .gt => m + 1 / 2 < w ∧ w < m + 1

variable {accuracy : Accuracy} {m : Nat} {w : Rat}

theorem Describes.bounds (describes : Describes accuracy m w) : m ≤ w ∧ w < m + 1 := by
  obtain _ | (_ | _ | _) := accuracy <;> simp only [Describes] at describes <;>
    constructor <;> linarith

theorem describes_shiftRightOne {em : ExtendedMantissa}
    (describes : Describes em.accuracy em.mantissa w) :
    Describes em.shiftRightOne.accuracy em.shiftRightOne.mantissa (w / 2) := by
  obtain ⟨m, half, rest⟩ := em
  obtain ⟨k, rfl | rfl⟩ := Nat.even_or_odd' m
  · have quotient : 2 * k / 2 = k := by omega
    have remainder : 2 * k % 2 = 0 := by omega
    cases half <;> cases rest <;>
      simp [ExtendedMantissa.accuracy, ExtendedMantissa.shiftRightOne, Describes, quotient,
        remainder] at describes ⊢ <;>
      first | constructor <;> linarith | linarith
  · have quotient : (2 * k + 1) / 2 = k := by omega
    have remainder : (2 * k + 1) % 2 = 1 := by omega
    cases half <;> cases rest <;>
      simp [ExtendedMantissa.accuracy, ExtendedMantissa.shiftRightOne, Describes, quotient,
        remainder] at describes ⊢ <;>
      first | constructor <;> linarith | linarith

theorem describes_shiftRight {em : ExtendedMantissa}
    (describes : Describes em.accuracy em.mantissa w) (k : Nat) :
    Describes (em >>> k).accuracy (em >>> k).mantissa (w / 2 ^ k) := by
  induction k with
  | zero =>
    rw [pow_zero, div_one]
    exact describes
  | succ k ih =>
    have step : em >>> (k + 1) = (em >>> k).shiftRightOne := rfl
    rw [step, pow_succ, ← div_div]
    exact describes_shiftRightOne ih

theorem accuracy_ofMantissaAndAccuracy (accuracy : Accuracy) (m : Nat) :
    (ExtendedMantissa.ofMantissaAndAccuracy m accuracy).accuracy = accuracy ∧
      (ExtendedMantissa.ofMantissaAndAccuracy m accuracy).mantissa = m := by
  obtain _ | (_ | _ | _) := accuracy <;> exact ⟨rfl, rfl⟩

/-- Rounding by the accuracy is rounding to the nearest integer. -/
theorem roundToNearestEven_eq {num den : Nat} (positive : 0 < den)
    (describes : Describes accuracy m (num / den)) :
    accuracy.roundToNearestEven m = roundHalfEven num den := by
  have denPositive : (0 : Rat) < den := Nat.cast_pos.mpr positive
  rcases describes.bounds with ⟨lower, upper⟩
  rw [le_div_iff₀ denPositive] at lower
  rw [div_lt_iff₀ denPositive] at upper
  have lower : m * den ≤ num := by exact_mod_cast lower
  have upper : num < (m + 1) * den := by exact_mod_cast upper
  obtain ⟨rest, rfl⟩ := Nat.exists_eq_add_of_le lower
  rw [Nat.add_one_mul] at upper
  have quotient : (m * den + rest) / den = m := by
    rw [Nat.mul_comm, Nat.mul_add_div positive, Nat.div_eq_of_lt (by omega), Nat.add_zero]
  have remainder : (m * den + rest) % den = rest := by
    rw [Nat.mul_comm, Nat.mul_add_mod, Nat.mod_eq_of_lt (by omega)]
  have fraction : (((m * den + rest : Nat) : Rat) / den) = m + rest / den := by
    push_cast
    field_simp
  rw [fraction] at describes
  rw [roundHalfEven, quotient, remainder]
  obtain _ | (_ | _ | _) := accuracy <;> simp only [Describes] at describes <;>
    rw [Accuracy.roundToNearestEven]
  case exact =>
    have zero : rest = 0 := by
      have vanishes : (rest / den : Rat) = 0 := by linarith
      rw [div_eq_zero_iff, or_iff_left denPositive.ne'] at vanishes
      exact_mod_cast vanishes
    rw [if_neg (by omega)]
  case inexact.lt =>
    have below : (rest / den : Rat) < 1 / 2 := by linarith
    rw [div_lt_div_iff₀ denPositive two_pos] at below
    have below : rest * 2 < 1 * den := by exact_mod_cast below
    rw [if_neg (by omega)]
  case inexact.eq =>
    have half : (rest / den : Rat) = 1 / 2 := by linarith
    rw [div_eq_div_iff denPositive.ne' two_ne_zero] at half
    have half : rest * 2 = 1 * den := by exact_mod_cast half
    split <;> omega
  case inexact.gt =>
    have above : (1 / 2 : Rat) < rest / den := by linarith
    rw [div_lt_div_iff₀ two_pos denPositive] at above
    have above : 1 * den < rest * 2 := by exact_mod_cast above
    rw [if_pos (by omega)]

/-! ## Rounding -/

/-- A mantissa of at most 53 digits, of which the first may only be zero in the least unit, is
packed as its pattern. -/
theorem pack_digits (s : UnpackedFloat.Sign) {t m : Nat} (positive : 0 < m) (short : m < 2 ^ 53)
    (normal : t = 0 ∨ 2 ^ 52 ≤ m) :
    let pattern := min infinityPattern (t * 2 ^ 52 + m)
    UnpackedFloat.pack Format.binary64 (.finite s m ((t : Int) - 1074) positive) =
      UnpackedFloat.pack Format.binary64 (ofFields s (pattern / 2 ^ 52) (pattern % 2 ^ 52)) := by
  intro pattern
  have limit : infinityPattern = 2047 * 2 ^ 52 := rfl
  rcases Nat.lt_or_ge (t * 2 ^ 52 + m) infinityPattern with finite | infinite
  · have same : pattern = t * 2 ^ 52 + m := min_eq_right finite.le
    rw [same, ofFields, if_neg (by omega)]
    rcases Nat.lt_or_ge m (2 ^ 52) with subnormal | full
    · obtain rfl := normal.resolve_right (by omega)
      rw [if_pos (by omega), dif_neg (by omega)]
      congr 2
      omega
    · rw [if_neg (by omega)]
      congr 2 <;> omega
  · have same : pattern = infinityPattern := min_eq_left infinite
    have bias : Format.binary64.exponentBias = 1023 := rfl
    have biased : ((t : Int) - 1074 + 1023 + 52).toNat = t + 1 := by omega
    rw [same, UnpackedFloat.pack]
    simp only [bias, Nat.cast_ofNat, biased]
    rw [if_pos (by omega)]
    rfl

/-- The exponent of the leading digit of a quotient between two powers of two. -/
theorem leading_eq {num den : Nat} (numPositive : 0 < num) (positive : 0 < den) {k : Int}
    (lower : (2 : Rat) ^ k ≤ num / den) (upper : (num / den : Rat) < 2 ^ (k + 1)) :
    leading num den = k := by
  rcases leading_spec numPositive positive with ⟨lower', upper'⟩
  have first := (zpow_lt_zpow_iff_right₀ (one_lt_two : (1 : Rat) < 2)).mp (lower.trans_lt upper')
  have second := (zpow_lt_zpow_iff_right₀ (one_lt_two : (1 : Rat) < 2)).mp (lower'.trans_lt upper)
  omega

/-- The unit to which a described number is rounded. -/
theorem unit_of_describes {num den : Nat} {e : Int} (numPositive : 0 < num) (positive : 0 < den)
    (describes : Describes accuracy m w) (value : (num / den : Rat) = w * 2 ^ e)
    (below : e ≤ max ((m.log2 : Int) + 1 + e - 53) (-1074)) :
    unit num den = max ((m.log2 : Int) + 1 + e - 53) (-1074) := by
  have power : (0 : Rat) < 2 ^ e := by positivity
  rcases describes.bounds with ⟨lower, upper⟩
  rcases Nat.eq_zero_or_pos m with rfl | nonzero
  · have bound : (num / den : Rat) < 2 ^ e := by
      rw [value]
      simpa using mul_lt_mul_of_pos_right upper power
    have first := (leading_spec numPositive positive).1
    have less := (zpow_lt_zpow_iff_right₀ (one_lt_two : (1 : Rat) < 2)).mp (first.trans_lt bound)
    rw [unit]
    simp only [Nat.log2_zero] at below ⊢
    omega
  · have digits : (2 ^ m.log2 : Rat) ≤ m := by exact_mod_cast Nat.log2_self_le nonzero.ne'
    have digits' : (m + 1 : Rat) ≤ 2 ^ (m.log2 + 1) := by
      exact_mod_cast Nat.lt_log2_self (n := m)
    have leads : leading num den = m.log2 + e := by
      apply leading_eq numPositive positive
      · rw [value, zpow_add₀ two_ne_zero, zpow_natCast]
        exact mul_le_mul_of_nonneg_right (digits.trans lower) power.le
      · rw [value, show (m.log2 + e + 1 : Int) = (m.log2 + 1 : Nat) + e by push_cast; ring,
          zpow_add₀ two_ne_zero, zpow_natCast]
        exact mul_lt_mul_of_pos_right (upper.trans_le digits') power
    rw [unit, leads]
    omega

/-- Rounding shifts a mantissa to the target exponent and rounds it.  Then it shifts the result
again. -/
theorem roundWithAccuracy_eq {s : UnpackedFloat.Sign} {e : Int} {t r again : Nat}
    (shifted : e ≤ (t : Int) - 1074)
    (target : max ((m.log2 : Int) + 1 + e - 53) (-1074) = (t : Int) - 1074)
    (rounded : (ExtendedMantissa.ofMantissaAndAccuracy m accuracy >>>
      ((t : Int) - 1074 - e).toNat).roundedMantissa = r)
    (shift : (Format.binary64.targetExponent (totalExponent r ((t : Int) - 1074)) -
      ((t : Int) - 1074)).toNat = again) :
    roundWithAccuracy Format.binary64 s m e accuracy =
      if zero : r / 2 ^ again = 0 then .zero s
      else .finite s (r / 2 ^ again) ((t : Int) - 1074 + again) (Nat.pos_of_ne_zero zero) := by
  have first : Format.binary64.targetExponent (totalExponent m e) = (t : Int) - 1074 := by
    rw [targetExponent_eq, totalExponent, target]
  have exponent : e + (((t : Int) - 1074 - e).toNat : Int) = (t : Int) - 1074 := by omega
  have carried : (ExtendedMantissa.ofMantissaAndAccuracy r .exact >>> again).mantissa =
      r / 2 ^ again := mantissa_shiftRight _ _
  simp only [roundWithAccuracy, shiftToTargetExponent, UnpackedFloat.shiftToExponent, first,
    exponent, rounded, ← carried, shift]

/-- The second shift of rounding, which is needed after a carry only. -/
theorem pack_roundWithAccuracy {s : UnpackedFloat.Sign} {e : Int} {t r : Nat}
    (shifted : e ≤ (t : Int) - 1074)
    (target : max ((m.log2 : Int) + 1 + e - 53) (-1074) = (t : Int) - 1074)
    (rounded : (ExtendedMantissa.ofMantissaAndAccuracy m accuracy >>>
      ((t : Int) - 1074 - e).toNat).roundedMantissa = r)
    (short : r ≤ 2 ^ 53) (normal : t = 0 ∨ 2 ^ 52 ≤ r) :
    let pattern := min infinityPattern (t * 2 ^ 52 + r)
    UnpackedFloat.pack Format.binary64 (roundWithAccuracy Format.binary64 s m e accuracy) =
      UnpackedFloat.pack Format.binary64 (ofFields s (pattern / 2 ^ 52) (pattern % 2 ^ 52)) := by
  intro pattern
  rcases short.lt_or_eq with below | rfl
  · have once : (Format.binary64.targetExponent (totalExponent r ((t : Int) - 1074)) -
        ((t : Int) - 1074)).toNat = 0 := by
      have digits := log2_le (n := r) (j := 52) below
      simp only [targetExponent_eq, totalExponent]
      omega
    rw [roundWithAccuracy_eq shifted target rounded once, Nat.cast_zero, add_zero]
    simp only [Nat.pow_zero, Nat.div_one]
    split
    next zero =>
      obtain rfl : t = 0 := by omega
      have same : pattern = 0 := by
        simp only [pattern, zero]
        rfl
      rw [same]
      rfl
    next nonzero => exact pack_digits s (Nat.pos_of_ne_zero nonzero) below normal
  · have twice : (Format.binary64.targetExponent (totalExponent (2 ^ 53) ((t : Int) - 1074)) -
        ((t : Int) - 1074)).toNat = 1 := by
      simp only [targetExponent_eq, totalExponent, Nat.log2_two_pow]
      omega
    have halved : 2 ^ 53 / 2 ^ 1 = 2 ^ 52 := rfl
    have same : pattern = min infinityPattern ((t + 1) * 2 ^ 52 + 2 ^ 52) := by
      have carried : t * 2 ^ 52 + 2 ^ 53 = (t + 1) * 2 ^ 52 + 2 ^ 52 := by ring
      exact congrArg (min infinityPattern) carried
    have packed := pack_digits s (t := t + 1) (m := 2 ^ 52) (by omega) (by omega) (.inr le_rfl)
    rw [show (((t + 1 : Nat) : Int) - 1074) = (t : Int) - 1074 + (1 : Nat) by omega] at packed
    rw [roundWithAccuracy_eq shifted target rounded twice]
    simp only [halved]
    rw [dif_neg (by omega), same]
    exact packed

theorem mantissa_zero (unit : Int) {den : Nat} (positive : 0 < den) : mantissa unit 0 den = 0 := by
  apply Nat.le_zero.mp
  apply mantissa_le positive
  simp

/-- The nearest pattern to a number that is where the mantissa and the accuracy say, in units of
the target. -/
theorem nearestPattern_of_describes {num den t : Nat} {e : Int} (positive : 0 < den)
    (describes : Describes accuracy m w) (value : (num / den : Rat) = w * 2 ^ e)
    (target : max ((m.log2 : Int) + 1 + e - 53) (-1074) = (t : Int) - 1074)
    (below : e ≤ (t : Int) - 1074) :
    nearestPattern num den =
        min infinityPattern (t * 2 ^ 52 + mantissa ((t : Int) - 1074) num den) ∧
      mantissa ((t : Int) - 1074) num den ≤ 2 ^ 53 ∧
      (t = 0 ∨ 2 ^ 52 ≤ mantissa ((t : Int) - 1074) num den) := by
  rcases Nat.eq_zero_or_pos num with rfl | numPositive
  · have power : (2 : Rat) ^ e ≠ 0 := by positivity
    have least : t = 0 := by
      have vanishes : w = 0 := by simpa [power] using value
      have lower := describes.bounds.1
      rw [vanishes] at lower
      obtain rfl : m = 0 := by exact_mod_cast le_antisymm lower (Nat.cast_nonneg m)
      rw [Nat.log2_zero] at target
      omega
    rw [least, mantissa_zero _ positive, nearestPattern_zero]
    exact ⟨rfl, by omega, .inl rfl⟩
  · have unit := unit_of_describes numPositive positive describes value (target ▸ below)
    rw [target] at unit
    have short := mantissa_unit_le numPositive positive
    have long := le_mantissa_unit numPositive positive
    rw [nearestPattern_eq numPositive positive]
    rw [unit] at short long ⊢
    refine ⟨?_, short, ?_⟩
    · congr 3
      omega
    · by_cases least : t = 0
      · exact .inl least
      · exact .inr (long (by omega))

/-- The result of an operation is the double nearest to any number that is where the mantissa and
the accuracy say. -/
theorem eq_ofRatio {x : Float} {negative : Bool} {num den : Nat} {e : Int}
    (packed : x.toModel = .pack (roundWithAccuracy Format.binary64
      (if negative then .negative else .positive) m e accuracy))
    (positive : 0 < den) (describes : Describes accuracy m w)
    (value : (num / den : Rat) = w * 2 ^ e)
    (below : e ≤ max ((m.log2 : Int) + 1 + e - 53) (-1074)) :
    x = ofRatio negative num den := by
  obtain ⟨t, target⟩ : ∃ t : Nat, max ((m.log2 : Int) + 1 + e - 53) (-1074) = (t : Int) - 1074 :=
    ⟨(max ((m.log2 : Int) + 1 + e - 53) (-1074) + 1074).toNat, by omega⟩
  rw [target] at below
  obtain ⟨k, shift⟩ : ∃ k : Nat, (t : Int) - 1074 = e + k := ⟨((t : Int) - 1074 - e).toNat, by omega⟩
  -- the mantissa is rounded as the quotient is in units of the target
  have rounded : (ExtendedMantissa.ofMantissaAndAccuracy m accuracy >>>
      ((t : Int) - 1074 - e).toNat).roundedMantissa = mantissa ((t : Int) - 1074) num den := by
    rcases exists_mantissa_eq ((t : Int) - 1074) num positive with ⟨n, d, dPositive, same, rounds⟩
    rcases accuracy_ofMantissaAndAccuracy accuracy m with ⟨accurate, initial⟩
    rw [rounds, ExtendedMantissa.roundedMantissa]
    apply roundToNearestEven_eq dPositive
    have quotient : (n / d : Rat) = w / 2 ^ ((t : Int) - 1074 - e).toNat := by
      rw [same, value, shift, zpow_add₀ two_ne_zero, zpow_natCast,
        show (e + k - e).toNat = k by omega]
      field_simp
    rw [quotient]
    apply describes_shiftRight
    rwa [accurate, initial]
  rcases nearestPattern_of_describes positive describes value target below with
    ⟨pattern, short, normal⟩
  have digits := pack_roundWithAccuracy (s := if negative then .negative else .positive) below
    target rounded short normal
  have models : x.toModel = (ofRatio negative num den).toModel := by
    rw [packed, ofRatio, toModel_ofPattern negative
      ((nearestPattern_le num den).trans_lt (by decide)), pattern]
    simp only [Float.Model.pack, digits]
  exact congrArg Float.ofModel models

/-! ## Operands -/

/-- A rational with a sign. -/
def signed (s : UnpackedFloat.Sign) (q : Rat) : Rat :=
  match s with
  | .negative => -q
  | .positive => q

theorem cast_apply (s : UnpackedFloat.Sign) (n : Nat) :
    ((s.apply (n : Int) : Int) : Rat) = signed s n := by
  cases s <;> simp [UnpackedFloat.Sign.apply, signed]

/-- Whether an unpacked double is in canonical form and has the given value. -/
inductive Unpacks : UnpackedFloat → Rat → Prop
  | zero (s : UnpackedFloat.Sign) : Unpacks (.zero s) 0
  | finite (s : UnpackedFloat.Sign) {m : Nat} {e : Int} {positive : 0 < m} (short : m < 2 ^ 53)
      (least : -1074 ≤ e) (normal : e = -1074 ∨ 2 ^ 52 ≤ m) :
      Unpacks (.finite s m e positive) (signed s (m * 2 ^ e))

variable {x y : Float} {p q : Rat}

theorem unpacks_of_toRat? (value : toRat? x = some p) : Unpacks x.toModel.unpack p := by
  have mantissa := mantissaField_lt x
  have toRat : ∀ (s : UnpackedFloat.Sign) (m : Nat) (e : Int),
      Dyadic.toRat ⟨s == .negative, m, e⟩ = signed s (m * 2 ^ e) := by
    intro s m e
    rw [Dyadic.toRat_eq]
    cases s <;> rfl
  rw [toRat?, dyadic?_eq_unpackedDyadic?, unpack_eq, ofFields] at value
  rw [unpack_eq, ofFields]
  split_ifs at value ⊢ with special zero subnormal zero <;>
    simp only [unpackedDyadic?, Option.map_none, Option.map_some, Option.some.injEq, toRat,
      reduceCtorEq] at value <;> subst value
  case pos =>
    have vanishes : signed (sign x) ((0 : Nat) * 2 ^ (-1074 : Int)) = 0 := by
      cases sign x <;> simp [signed]
    rw [vanishes]
    exact .zero _
  case neg => exact .finite _ (by omega) le_rfl (.inl rfl)
  case neg => exact .finite _ (by omega) (by omega) (.inr (by omega))

/-- A double with a value is finite. -/
theorem exponentField_of_toRat? (value : toRat? x = some p) : exponentField x < 2047 := by
  rcases Option.map_eq_some_iff.mp value with ⟨d, form, -⟩
  have field := exponentField_lt x
  rw [dyadic?] at form
  split at form
  next => contradiction
  next number =>
    have number : exponentField x ≠ 2047 := number
    omega

/-- A finite double is nearest to its own value. -/
theorem place?_of_toRat? (value : toRat? x = some p) :
    place? x = some (.ofPosition (position p)) := by
  rcases exists_valueAt (exponentField_of_toRat? value) with ⟨n, bound, place, value'⟩
  rw [value, Option.some.injEq] at value'
  rw [value', position_valueAt bound, place]

/-! ## Results -/

/-- The place of a result is that of the double nearest to any number that is where the mantissa
and the accuracy say. -/
theorem place?_of_rounded {s : UnpackedFloat.Sign} {e : Int}
    (packed : x.toModel = .pack (roundWithAccuracy Format.binary64 s m e accuracy))
    (describes : Describes accuracy m w)
    (below : e ≤ max ((m.log2 : Int) + 1 + e - 53) (-1074)) :
    place? x = some (.ofPosition (position (signed s (w * 2 ^ e)))) := by
  have nonneg : 0 ≤ w * 2 ^ e :=
    mul_nonneg ((Nat.cast_nonneg m).trans describes.bounds.1) (by positivity)
  have value : ((w * 2 ^ e).num.natAbs / (w * 2 ^ e).den : Rat) = w * 2 ^ e := by
    rw [abs_num_div_den, abs_of_nonneg nonneg]
  have place : position (w * 2 ^ e) = nearestPattern (w * 2 ^ e).num.natAbs (w * 2 ^ e).den := by
    rw [position, if_neg (Int.not_lt.mpr (Rat.num_nonneg.mpr nonneg))]
  cases s with
  | negative =>
    rw [@eq_ofRatio _ _ _ _ true _ _ _ packed (Rat.den_pos _) describes value below, ofRatio,
      place?_ofPattern true (nearestPattern_le _ _), signed, position_neg, place]
    rfl
  | positive =>
    rw [@eq_ofRatio _ _ _ _ false _ _ _ packed (Rat.den_pos _) describes value below, ofRatio,
      place?_ofPattern false (nearestPattern_le _ _), signed, place]
    rfl

theorem place?_of_zero {s : UnpackedFloat.Sign} (packed : x.toModel = .pack (.zero s)) :
    place? x = some (.ofPosition (position 0)) := by
  rw [beq_zero_iff.mp (beq_zero_of_packed packed)]
  rfl

/-- A mantissa is first extended to as many digits as are kept, and then rounded. -/
theorem place?_of_round {s : UnpackedFloat.Sign} {n : Nat} {e : Int} (positive : 0 < n)
    (packed : x.toModel = .pack (UnpackedFloat.round Format.binary64 s n e)) :
    place? x = some (.ofPosition (position (signed s (n * 2 ^ e)))) := by
  let shift := (e - Format.binary64.targetExponent (totalExponent n e)).toNat
  have digits : (n <<< shift).log2 = n.log2 + shift := log2_shiftLeft positive shift
  have below : e - (shift : Int) ≤
      max (((n <<< shift).log2 : Int) + 1 + (e - shift) - 53) (-1074) := by
    rw [digits]
    simp only [shift, targetExponent_eq, totalExponent]
    omega
  have extended : ((n <<< shift : Nat) : Rat) * 2 ^ (e - (shift : Int)) = n * 2 ^ e := by
    rw [Nat.shiftLeft_eq, zpow_sub₀ two_ne_zero, zpow_natCast]
    push_cast
    field_simp
  rw [← extended]
  exact place?_of_rounded packed rfl below

theorem place?_of_normalized {total e : Int} {s : UnpackedFloat.Sign}
    (packed : x.toModel = .pack (UnpackedFloat.normalize Format.binary64 total e s)) :
    place? x = some (.ofPosition (position (total * 2 ^ e))) := by
  rw [UnpackedFloat.normalize] at packed
  split at packed
  next negative =>
    rw [compare_lt_iff_lt] at negative
    have opposite : (((-total).toNat : Nat) : Rat) = -total := by
      rw [← Int.cast_natCast, Int.toNat_of_nonneg (by omega), Int.cast_neg]
    have place := place?_of_round (by omega) packed
    rwa [signed, opposite, neg_mul, neg_neg] at place
  next zero =>
    rw [compare_eq_iff_eq] at zero
    rw [place?_of_zero packed, zero, Int.cast_zero, MulZeroClass.zero_mul]
  next positive =>
    rw [compare_gt_iff_gt] at positive
    have same : ((total.toNat : Nat) : Rat) = total := by
      rw [← Int.cast_natCast, Int.toNat_of_nonneg (by omega)]
    have place := place?_of_round (by omega) packed
    rwa [signed, same] at place

theorem unpack_add (x y : Float) :
    (x + y).toModel = .pack (UnpackedFloat.add Format.binary64 x.toModel.unpack
      y.toModel.unpack) := rfl

theorem place?_pack_unpack (packed : x.toModel = .pack y.toModel.unpack) : place? x = place? y := by
  apply place?_congr
  rw [unpack_eq] at packed
  rw [unpack_of_toModel_eq_pack packed, unpack_eq]

/-- A mantissa over a smaller exponent. -/
theorem signed_aligned (s : UnpackedFloat.Sign) (n : Nat) {e low : Int} (below : low ≤ e) :
    ((s.apply ((n <<< (e - low).toNat : Nat) : Int) : Int) : Rat) * 2 ^ low =
      signed s (n * 2 ^ e) := by
  have power : (2 : Rat) ^ e = 2 ^ (e - low).toNat * 2 ^ low := by
    rw [← zpow_natCast, ← zpow_add₀ two_ne_zero]
    congr 1
    omega
  rw [cast_apply, Nat.shiftLeft_eq, power]
  cases s <;> simp only [signed] <;> push_cast <;> ring

/-- A sum is the double nearest to the exact sum. -/
theorem place?_add (left : toRat? x = some p) (right : toRat? y = some q) :
    place? (x + y) = some (.ofPosition (position (p + q))) := by
  have packed := unpack_add x y
  have leftPlace := place?_of_toRat? left
  have rightPlace := place?_of_toRat? right
  have leftForm := unpacks_of_toRat? left
  have rightForm := unpacks_of_toRat? right
  rcases first : x.toModel.unpack with _ | _ | s | ⟨s, m, e, positive⟩ <;>
    rcases second : y.toModel.unpack with _ | _ | t | ⟨t, n, f, positive'⟩ <;>
    rw [first] at leftForm <;> rw [second] at rightForm <;> cases leftForm <;> cases rightForm
  case zero.zero =>
    rw [first, second, UnpackedFloat.add] at packed
    rw [add_zero]
    split at packed
    next => exact place?_of_zero packed
    next => exact place?_of_zero packed
  case zero.finite.zero.finite =>
    have packed : (x + y).toModel = .pack y.toModel.unpack := by
      rw [packed, first, second]
      rfl
    rw [zero_add, place?_pack_unpack packed, rightPlace]
  case finite.zero.finite.zero =>
    have packed : (x + y).toModel = .pack x.toModel.unpack := by
      rw [packed, first, second]
      rfl
    rw [add_zero, place?_pack_unpack packed, leftPlace]
  case finite.finite.finite.finite =>
    rw [first, second] at packed
    have place := place?_of_normalized packed
    rwa [Int.cast_add, add_mul, signed_aligned s m (min_le_left e f),
      signed_aligned t n (min_le_right e f)] at place

theorem toRat?_neg (value : toRat? x = some p) : toRat? (-x) = some (-p) := by
  rcases Option.map_eq_some_iff.mp value with ⟨d, form, rfl⟩
  rw [toRat?, dyadic?_neg, form, Option.map_some, Option.map_some, Dyadic.toRat_eq, Dyadic.toRat_eq]
  cases d.negative <;> simp

theorem toRat?_abs (value : toRat? x = some p) : toRat? x.abs = some |p| := by
  rcases Option.map_eq_some_iff.mp value with ⟨d, form, rfl⟩
  have nonneg : (0 : Rat) ≤ d.mantissa * 2 ^ d.exponent := by positivity
  have size : |d.toRat| = d.mantissa * 2 ^ d.exponent := by
    rw [Dyadic.toRat_eq]
    split
    next => rw [abs_neg, abs_of_nonneg nonneg]
    next => rw [abs_of_nonneg nonneg]
  rw [toRat?, dyadic?_abs, form, Option.map_some, Option.map_some, Dyadic.toRat_eq, size]
  rfl

/-- A difference is the sum with the negated second operand. -/
theorem sub_eq_add (x y : Float) : x - y = x + -y := by
  have negated : (-y).toModel.unpack = y.toModel.unpack.neg := by
    rw [unpack_neg, ← ofFields_neg, ← unpack_eq]
  have models : (x - y).toModel = (x + -y).toModel := by
    rw [unpack_add, negated, ← unpackedSub_eq]
    rfl
  exact congrArg Float.ofModel models

/-- A difference is the double nearest to the exact difference. -/
theorem place?_sub (left : toRat? x = some p) (right : toRat? y = some q) :
    place? (x - y) = some (.ofPosition (position (p - q))) := by
  rw [sub_eq_add, sub_eq_add_neg]
  exact place?_add left (toRat?_neg right)

/-! ### Products and quotients -/

theorem signed_mul (s t : UnpackedFloat.Sign) (p q : Rat) :
    signed (s * t) (p * q) = signed s p * signed t q := by
  rcases s with _ | _ <;> rcases t with _ | _
  · exact (neg_mul_neg p q).symm
  · exact (neg_mul p q).symm
  · exact (mul_neg p q).symm
  · rfl

/-- A product is the double nearest to the exact product. -/
theorem place?_mul (left : toRat? x = some p) (right : toRat? y = some q) :
    place? (x * y) = some (.ofPosition (position (p * q))) := by
  have packed : (x * y).toModel = .pack (UnpackedFloat.mul Format.binary64 x.toModel.unpack
    y.toModel.unpack) := rfl
  have leftForm := unpacks_of_toRat? left
  have rightForm := unpacks_of_toRat? right
  rcases first : x.toModel.unpack with _ | _ | s | ⟨s, m, e, positive⟩ <;>
    rcases second : y.toModel.unpack with _ | _ | t | ⟨t, n, f, positive'⟩ <;>
    rw [first] at leftForm <;> rw [second] at rightForm <;> rw [first, second] at packed <;>
    cases leftForm <;> cases rightForm
  case finite.finite.finite.finite _ short least normal _ short' least' normal' =>
    have digits : 52 ≤ (m * n).log2 ∨ e + f ≤ -1074 := by
      have nonzero : m * n ≠ 0 := (Nat.mul_pos positive positive').ne'
      rcases normal with rfl | normal
      · rcases normal' with rfl | normal'
        · omega
        · exact .inl ((Nat.le_log2 nonzero).mpr (normal'.trans (Nat.le_mul_of_pos_left n positive)))
      · exact .inl ((Nat.le_log2 nonzero).mpr (normal.trans (Nat.le_mul_of_pos_right m positive')))
    have place := place?_of_rounded (w := (m * n : Nat)) packed rfl (by omega)
    have product : ((m * n : Nat) : Rat) * 2 ^ (e + f) = m * 2 ^ e * (n * 2 ^ f) := by
      rw [zpow_add₀ two_ne_zero]
      push_cast
      ring
    rwa [product, signed_mul] at place
  all_goals
    simp only [MulZeroClass.zero_mul, MulZeroClass.mul_zero]
    exact place?_of_zero packed

theorem signed_div (s t : UnpackedFloat.Sign) (p q : Rat) :
    signed (s / t) (p / q) = signed s p / signed t q := by
  rcases s with _ | _ <;> rcases t with _ | _
  · exact (neg_div_neg_eq p q).symm
  · exact (neg_div q p).symm
  · exact (div_neg p).symm
  · rfl

theorem describes_accuracyOfFraction {num den : Nat} (positive : 0 < den) :
    Describes (UnpackedFloat.accuracyOfFraction (num % den) den) (num / den) (num / den) := by
  have denPositive : (0 : Rat) < den := Nat.cast_pos.mpr positive
  have division : (num / den : Rat) = (num / den : Nat) + (num % den : Nat) / den := by
    have split : (num : Rat) = den * (num / den : Nat) + (num % den : Nat) := by
      exact_mod_cast (Nat.div_add_mod num den).symm
    rw [div_eq_iff denPositive.ne', add_mul, div_mul_cancel₀ _ denPositive.ne', mul_comm]
    exact split
  have remainder := Nat.mod_lt num positive
  rw [division, UnpackedFloat.accuracyOfFraction]
  generalize num / den = quotient at *
  generalize num % den = rest at *
  split
  next zero => simp [Describes, zero]
  next nonzero =>
    have restPositive : (0 : Rat) < rest := Nat.cast_pos.mpr (Nat.pos_of_ne_zero nonzero)
    have fraction : (0 : Rat) < rest / den := div_pos restPositive denPositive
    rcases lt_trichotomy (2 * rest) den with below | half | above
    · rw [compare_lt_iff_lt.mpr below, Describes, add_lt_add_iff_left, lt_add_iff_pos_right,
        div_lt_div_iff₀ denPositive two_pos]
      exact ⟨fraction, by exact_mod_cast (by omega : rest * 2 < 1 * den)⟩
    · rw [compare_eq_iff_eq.mpr half, Describes, add_right_inj, ← half]
      push_cast
      field_simp
    · rw [compare_gt_iff_gt.mpr above, Describes, add_lt_add_iff_left, add_lt_add_iff_left,
        div_lt_div_iff₀ two_pos denPositive, div_lt_one denPositive]
      exact ⟨by exact_mod_cast (by omega : 1 * den < rest * 2), by exact_mod_cast remainder⟩

/-- A quotient of mantissas has at least as many digits as the difference of theirs. -/
theorem log2_sub_le_div {m n : Nat} (positive : 0 < m) (positive' : 0 < n)
    (long : n.log2 < m.log2) : m.log2 - n.log2 - 1 ≤ (m / n).log2 := by
  have bound : 2 ^ (m.log2 - n.log2 - 1) ≤ m / n := by
    rw [Nat.le_div_iff_mul_le positive']
    calc 2 ^ (m.log2 - n.log2 - 1) * n
        ≤ 2 ^ (m.log2 - n.log2 - 1) * 2 ^ (n.log2 + 1) :=
          Nat.mul_le_mul_left _ Nat.lt_log2_self.le
      _ = 2 ^ m.log2 := by
          rw [← Nat.pow_add]
          congr 1
          omega
      _ ≤ m := Nat.log2_self_le positive.ne'
  exact (Nat.le_log2 (Nat.pos_of_ne_zero
    (Nat.lt_of_lt_of_le (Nat.two_pow_pos _) bound).ne').ne').mpr bound

/-- A quotient is the double nearest to the exact quotient. -/
theorem place?_div (left : toRat? x = some p) (right : toRat? y = some q) (nonzero : q ≠ 0) :
    place? (x / y) = some (.ofPosition (position (p / q))) := by
  have packed : (x / y).toModel = .pack (UnpackedFloat.div Format.binary64 x.toModel.unpack
    y.toModel.unpack) := rfl
  have leftForm := unpacks_of_toRat? left
  have rightForm := unpacks_of_toRat? right
  rcases first : x.toModel.unpack with _ | _ | s | ⟨s, m, e, positive⟩ <;>
    rcases second : y.toModel.unpack with _ | _ | t | ⟨t, n, f, positive'⟩ <;>
    rw [first] at leftForm <;> rw [second] at rightForm <;> rw [first, second] at packed <;>
    cases leftForm <;> cases rightForm
  case zero.zero | finite.zero.finite.zero => contradiction
  case zero.finite.zero.finite =>
    rw [div_eq_mul_inv, MulZeroClass.zero_mul]
    exact place?_of_zero packed
  case finite.finite.finite.finite =>
    let target := min (e - f)
      (Format.binary64.targetExponent (totalExponent m e - totalExponent n f))
    let shift := (e - f - target).toNat
    have limit : target ≤ e - f ∧
        target ≤ max ((m.log2 : Int) + e - n.log2 - f - 53) (-1074) := by
      simp only [target, targetExponent_eq, totalExponent]
      omega
    have digits : 52 ≤ (m <<< shift / n).log2 ∨ target ≤ -1074 := by
      have long := log2_shiftLeft positive shift
      have quotient := @log2_sub_le_div (m <<< shift) n
        (by rw [Nat.shiftLeft_eq]; positivity) positive'
      omega
    have place := place?_of_rounded packed (describes_accuracyOfFraction positive')
      (show target ≤ max (((m <<< shift / n).log2 : Int) + 1 + target - 53) (-1074) by omega)
    have quotient : ((m <<< shift : Nat) / n : Rat) * 2 ^ target =
        m * 2 ^ e / (n * 2 ^ f) := by
      have power : (2 : Rat) ^ e = 2 ^ shift * 2 ^ target * 2 ^ f := by
        rw [← zpow_natCast, ← zpow_add₀ two_ne_zero, ← zpow_add₀ two_ne_zero]
        congr 1
        omega
      rw [Nat.shiftLeft_eq, power]
      push_cast
      field_simp
    rwa [quotient, signed_div] at place

/-! ### Square roots -/

/-- What is computed of the accuracy of a root. -/
def rootAccuracy (square : Nat) : Accuracy :=
  if square - square.sqrt * square.sqrt = 0 then .exact
  else .inexact (if square - square.sqrt * square.sqrt ≤ square.sqrt then .lt else .gt)

/-- Numbers on either side of a square root lie on that side of a number between two bounds of the
root. -/
theorem exists_between_bounds {low high s u : Rat} (highNonneg : 0 ≤ high)
    (lower : low * low < s) (upper : s < high * high) (nonneg : 0 ≤ u) :
    (u * u ≤ s → ∃ w, u ≤ w ∧ low < w ∧ w < high) ∧
      (s ≤ u * u → ∃ w, w ≤ u ∧ low < w ∧ w < high) := by
  have order : low < high := lt_of_mul_self_lt_mul_self₀ highNonneg (lower.trans upper)
  obtain ⟨middle, above, below⟩ := exists_between order
  constructor
  · intro le
    have less : u < high := lt_of_mul_self_lt_mul_self₀ highNonneg (le.trans_lt upper)
    exact ⟨max u middle, le_max_left _ _, lt_max_of_lt_right above, max_lt less below⟩
  · intro le
    have less : low < u := lt_of_mul_self_lt_mul_self₀ nonneg (lower.trans_le le)
    exact ⟨min u middle, min_le_left _ _, lt_min less above, min_lt_of_right_lt below⟩

/-- Numbers on either side of a square root lie on that side of a number that is described as the
root is. -/
theorem exists_describes_root (square : Nat) {u : Rat} (nonneg : 0 ≤ u) :
    (u * u ≤ square → ∃ w, u ≤ w ∧ Describes (rootAccuracy square) square.sqrt w) ∧
      (square ≤ u * u → ∃ w, w ≤ u ∧ Describes (rootAccuracy square) square.sqrt w) := by
  have upper : (square : Rat) < (square.sqrt + 1) * (square.sqrt + 1) := by
    exact_mod_cast Nat.lt_succ_sqrt square
  have le := Nat.sqrt_le square
  have rootNonneg : (0 : Rat) ≤ square.sqrt := Nat.cast_nonneg _
  unfold rootAccuracy
  generalize square.sqrt = root at *
  split
  next zero =>
    have same : (square : Rat) = root * root := by
      have : square = root * root := by omega
      exact_mod_cast this
    rw [same]
    exact ⟨fun le => ⟨root, (mul_self_le_mul_self_iff nonneg rootNonneg).mpr le, rfl⟩,
      fun le => ⟨root, (mul_self_le_mul_self_iff rootNonneg nonneg).mpr le, rfl⟩⟩
  next nonzero =>
    split
    next low =>
      have strict : (root * root : Rat) < square := by
        have : root * root < square := by omega
        exact_mod_cast this
      have low : (square : Rat) ≤ root * root + root := by
        have : square ≤ root * root + root := by omega
        exact_mod_cast this
      exact exists_between_bounds (by linarith) strict (by linarith) nonneg
    next high =>
      have high : (root * root + root + 1 : Rat) ≤ square := by
        have : root * root + root + 1 ≤ square := by omega
        exact_mod_cast this
      exact exists_between_bounds (by linarith) (by linarith) upper nonneg

/-- The square root of a double is rounded from a root of at least 53 digits. -/
theorem place?_of_rooted {e : Int} {positive : 0 < m}
    (packed : x.toModel = .pack (UnpackedFloat.sqrt Format.binary64
      (.finite .positive m e positive))) :
    ∃ (square : Nat) (target : Int), (square : Rat) * (2 ^ target * 2 ^ target) = m * 2 ^ e ∧
      ∀ {w : Rat}, Describes (rootAccuracy square) square.sqrt w →
        place? x = some (.ofPosition (position (w * 2 ^ target))) := by
  let target := min (e.ediv 2) (Format.binary64.targetExponent ((totalExponent m e + 1).ediv 2))
  let shift := (e - 2 * target).toNat
  have limit : target ≤ e / 2 ∧
      target ≤ max (((m.log2 : Int) + 1 + e + 1) / 2 - 53) (-1074) := by
    simp only [target, targetExponent_eq, totalExponent]
    exact ⟨min_le_left _ _, min_le_right _ _⟩
  have long := log2_shiftLeft positive shift
  have nonzero : m <<< shift ≠ 0 := by
    rw [Nat.shiftLeft_eq]
    positivity
  have digits : 52 ≤ (m <<< shift).sqrt.log2 ∨ target ≤ -1074 := by
    by_cases small : target ≤ -1074
    · exact .inr small
    · left
      have bound : 2 ^ 52 ≤ (m <<< shift).sqrt := by
        rw [Nat.le_sqrt, ← Nat.pow_add, ← Nat.le_log2 nonzero]
        omega
      exact (Nat.le_log2 (by omega)).mpr bound
  refine ⟨m <<< shift, target, ?_, fun describes => ?_⟩
  · have exponent : (2 : Rat) ^ e = 2 ^ shift * (2 ^ target * 2 ^ target) := by
      rw [← zpow_natCast, ← zpow_add₀ two_ne_zero, ← zpow_add₀ two_ne_zero]
      congr 1
      omega
    rw [exponent, Nat.shiftLeft_eq]
    push_cast
    ring
  · have rounded : x.toModel = .pack (roundWithAccuracy Format.binary64 .positive
      (m <<< shift).sqrt target (rootAccuracy (m <<< shift))) := packed
    have place := place?_of_rounded rounded describes (by omega)
    rwa [signed] at place

/-- A root that any number described as it is rounds to lies among the doubles where the exact root
does. -/
theorem between_of_described {square : Nat} {target : Int}
    (place : ∀ {w : Rat}, Describes (rootAccuracy square) square.sqrt w →
      place? x = some (.ofPosition (position (w * 2 ^ target)))) :
    ∃ n : Int, place? x = some (.ofPosition n) ∧ ∀ z : Rat, 0 ≤ z →
      (z * z ≤ square * (2 ^ target * 2 ^ target) → position z ≤ n) ∧
        (square * (2 ^ target * 2 ^ target) ≤ z * z → n ≤ position z) := by
  have unit : (0 : Rat) < 2 ^ target := by positivity
  have scaled : ∀ z : Rat, z / 2 ^ target * (z / 2 ^ target) * (2 ^ target * 2 ^ target) =
      z * z := by
    intro z
    field_simp
  rcases (exists_describes_root square le_rfl).1 (by simp) with ⟨w, -, describes⟩
  refine ⟨_, place describes, fun z zNonneg => ?_⟩
  have same : ∀ {v : Rat}, Describes (rootAccuracy square) square.sqrt v →
      position (v * 2 ^ target) = position (w * 2 ^ target) := fun describes' =>
    Place.ofPosition_strictMonoOn.injOn (position_mem _) (position_mem _)
      (Option.some.inj ((place describes').symm.trans (place describes)))
  rcases exists_describes_root square (div_nonneg zNonneg unit.le) with ⟨below, above⟩
  rw [← scaled z]
  constructor
  · intro le
    rcases below (le_of_mul_le_mul_right le (mul_pos unit unit)) with ⟨v, less, describes'⟩
    rw [div_le_iff₀ unit] at less
    exact (position_mono less).trans (same describes').le
  · intro le
    rcases above (le_of_mul_le_mul_right le (mul_pos unit unit)) with ⟨v, less, describes'⟩
    rw [le_div_iff₀ unit] at less
    exact (same describes').ge.trans (position_mono less)

/-- The square root of a double lies among the doubles where the exact root does. -/
theorem place?_sqrt (value : toRat? x = some p) (nonneg : 0 ≤ p) :
    ∃ n : Int, place? x.sqrt = some (.ofPosition n) ∧ ∀ z : Rat, 0 ≤ z →
      (z * z ≤ p → position z ≤ n) ∧ (p ≤ z * z → n ≤ position z) := by
  have packed : x.sqrt.toModel =
      .pack (UnpackedFloat.sqrt Format.binary64 x.toModel.unpack) := rfl
  have form := unpacks_of_toRat? value
  rcases unpacked : x.toModel.unpack with _ | _ | s | ⟨s, m, e, positive⟩ <;>
    rw [unpacked] at form packed <;> cases form
  case zero =>
    refine ⟨position 0, place?_of_zero packed, fun z zNonneg => ⟨fun le => ?_, fun _ => ?_⟩⟩
    · have zero : z = 0 := by nlinarith
      rw [zero]
    · exact position_mono zNonneg
  case finite short least normal =>
    have power : (0 : Rat) < 2 ^ e := by positivity
    have mantissa : (0 : Rat) < m := Nat.cast_pos.mpr positive
    obtain rfl : s = .positive := by
      cases s with
      | negative =>
        have product := mul_pos mantissa power
        simp only [signed] at nonneg
        linarith
      | positive => rfl
    rcases place?_of_rooted packed with ⟨square, target, number, place⟩
    rw [signed, ← number]
    exact between_of_described place

end ExactRoots.Binary64
