import ExactRoots.Proofs.Binary64.Position

/-!
# Exponents of results

How large a sum, a difference, a quotient and a square root of doubles can be, told by
exponents alone: rounding raises an exponent by one at most, so results stay finite
while the exponents of the operands leave room.
-/

namespace ExactRoots.Binary64

open Float.Model
open UnpackedFloat (Accuracy ExtendedMantissa shiftToTargetExponent roundWithAccuracy)

/-! ## Rounding -/

/-- Whether an unpacked double is a number of at most 53 digits with an exponent field below
`k`. -/
def Fits (k : Nat) : UnpackedFloat → Prop
  | .zero _ => True
  | .finite _ m e _ => m.log2 ≤ 52 ∧ e + 1075 < k
  | .infinity _ | .notANumber => False

theorem Fits.mono {k l : Nat} {u : UnpackedFloat} (fits : Fits k u) (le : k ≤ l) : Fits l u := by
  cases u with
  | zero => trivial
  | finite s m e positive => exact ⟨fits.1, fits.2.trans_le (Int.ofNat_le.mpr le)⟩
  | infinity => contradiction
  | notANumber => contradiction

theorem mantissa_shiftRight (m : ExtendedMantissa) (k : Nat) :
    (m >>> k).mantissa = m.mantissa / 2 ^ k := by
  induction k with
  | zero => exact (Nat.div_one _).symm
  | succ k ih =>
    have step : (m >>> (k + 1)).mantissa = (m >>> k).mantissa / 2 := rfl
    rw [step, ih, Nat.div_div_eq_div_mul, Nat.pow_succ]

theorem roundedMantissa_le (m : ExtendedMantissa) : m.roundedMantissa ≤ m.mantissa + 1 := by
  obtain ⟨m, _ | _, _ | _⟩ := m <;>
    simp [ExtendedMantissa.roundedMantissa, ExtendedMantissa.accuracy,
      Accuracy.roundToNearestEven]
  omega

theorem targetExponent_eq (total : Int) :
    Format.binary64.targetExponent total = max (total - 53) (-1074) := rfl

theorem log2_le {n j : Nat} (digits : n < 2 ^ (j + 1)) : n.log2 ≤ j := by
  rcases Nat.eq_zero_or_pos n with rfl | positive
  · exact Nat.zero_le j
  · rwa [← Nat.lt_succ_iff, Nat.log2_lt positive.ne']

/-- A mantissa that is shifted and rounded has one digit more at most. -/
theorem log2_rounded_le {m r s : Nat} (rounded : r ≤ m / 2 ^ s + 1) :
    r.log2 ≤ m.log2 + 1 - s := by
  apply log2_le
  rw [Nat.pow_succ]
  have digits : m < 2 ^ (m.log2 + 1) := Nat.lt_log2_self
  have one : 1 ≤ 2 ^ (m.log2 + 1 - s) := Nat.one_le_two_pow
  rcases Nat.lt_or_ge m.log2 s with short | long
  · have none : m / 2 ^ s = 0 :=
      Nat.div_eq_of_lt (digits.trans_le (Nat.pow_le_pow_right two_pos short))
    omega
  · have some : m / 2 ^ s < 2 ^ (m.log2 + 1 - s) := by
      rw [Nat.div_lt_iff_lt_mul (Nat.two_pow_pos s), ← Nat.pow_add]
      rwa [Nat.sub_add_cancel (by omega)]
    omega

theorem log2_div_le (m s : Nat) : (m / 2 ^ s).log2 ≤ m.log2 - s := by
  apply log2_le
  rw [Nat.div_lt_iff_lt_mul (Nat.two_pow_pos s), ← Nat.pow_add]
  exact Nat.lt_log2_self.trans_le (Nat.pow_le_pow_right two_pos (by omega))

/-- Rounding raises the exponent by one at most. -/
theorem fits_roundWithAccuracy {k m : Nat} {e : Int} (s : UnpackedFloat.Sign)
    (accuracy : Accuracy) (normal : 1 < k) (exponent : e + 1075 < k)
    (leading : (m.log2 : Int) + e + 1023 < k) :
    Fits (k + 1) (roundWithAccuracy Format.binary64 s m e accuracy) := by
  let shift := (Format.binary64.targetExponent (totalExponent m e) - e).toNat
  let r := (ExtendedMantissa.ofMantissaAndAccuracy m accuracy >>> shift).roundedMantissa
  have shifted : (shift : Int) = max 0 (max ((m.log2 : Int) + 1 + e - 53) (-1074) - e) := by
    simp only [shift, targetExponent_eq, totalExponent]
    omega
  have initial : (ExtendedMantissa.ofMantissaAndAccuracy m accuracy).mantissa = m := by
    obtain _ | (_ | _ | _) := accuracy <;> rfl
  have digits : r.log2 ≤ m.log2 + 1 - shift := by
    apply log2_rounded_le
    have rounded := roundedMantissa_le (ExtendedMantissa.ofMantissaAndAccuracy m accuracy >>> shift)
    rwa [mantissa_shiftRight, initial] at rounded
  rw [roundWithAccuracy]
  dsimp only
  split
  next => trivial
  next =>
    let again := (Format.binary64.targetExponent (totalExponent r (e + shift)) -
      (e + shift)).toNat
    have shiftedAgain : (again : Int) =
        max 0 (max ((r.log2 : Int) + 1 + (e + shift) - 53) (-1074) - (e + shift)) := by
      simp only [again, targetExponent_eq, totalExponent]
      omega
    constructor
    · change (ExtendedMantissa.ofMantissaAndAccuracy r .exact >>> again).mantissa.log2 ≤ 52
      rw [mantissa_shiftRight]
      have shorter := log2_div_le r again
      change (r / 2 ^ again).log2 ≤ 52
      omega
    · change e + shift + again + 1075 < (k + 1 : Nat)
      omega

theorem log2_shiftLeft {m : Nat} (positive : 0 < m) (s : Nat) : (m <<< s).log2 = m.log2 + s := by
  rw [Nat.shiftLeft_eq, Nat.log2_eq_iff (by positivity)]
  have lower := Nat.log2_self_le positive.ne'
  have upper := Nat.lt_log2_self (n := m)
  constructor
  · rw [Nat.pow_add]
    exact Nat.mul_le_mul_right _ lower
  · rw [show m.log2 + s + 1 = m.log2 + 1 + s by omega, Nat.pow_add]
    exact Nat.mul_lt_mul_of_pos_right upper (Nat.two_pow_pos s)

theorem fits_round {k m : Nat} {e : Int} (s : UnpackedFloat.Sign) (normal : 1 < k)
    (positive : 0 < m) (leading : (m.log2 : Int) + e + 1023 < k) :
    Fits (k + 1) (UnpackedFloat.round Format.binary64 s m e) := by
  apply fits_roundWithAccuracy s .exact normal
  · rw [targetExponent_eq, totalExponent]
    omega
  · rw [log2_shiftLeft positive, targetExponent_eq, totalExponent]
    omega

theorem fits_normalize {j k : Nat} {m e : Int} (s : UnpackedFloat.Sign) (normal : 1 < k)
    (digits : m.natAbs < 2 ^ (j + 1)) (room : (j : Int) + e + 1023 < k) :
    Fits (k + 1) (UnpackedFloat.normalize Format.binary64 m e s) := by
  have leading := log2_le digits
  rw [UnpackedFloat.normalize]
  split
  next negative =>
    rw [compare_lt_iff_lt] at negative
    apply fits_round _ normal (by omega)
    rw [show (-m).toNat = m.natAbs by omega]
    omega
  next => trivial
  next positive =>
    rw [compare_gt_iff_gt] at positive
    apply fits_round _ normal (by omega)
    rw [show m.toNat = m.natAbs by omega]
    omega

/-! ## Operations -/

variable {k l : Nat} {u v : UnpackedFloat}

/-- Two mantissas over the smaller one of their exponents. -/
theorem aligned_lt {m : Nat} {e lower upper : Int} (short : m.log2 ≤ 52) (above : e ≤ upper) :
    m <<< (e - lower).toNat < 2 ^ (53 + (upper - lower).toNat) := by
  rw [Nat.shiftLeft_eq]
  calc m * 2 ^ (e - lower).toNat
    _ < 2 ^ (m.log2 + 1) * 2 ^ (e - lower).toNat :=
      Nat.mul_lt_mul_of_pos_right Nat.lt_log2_self (Nat.two_pow_pos _)
    _ = 2 ^ (m.log2 + 1 + (e - lower).toNat) := (Nat.pow_add _ _ _).symm
    _ ≤ 2 ^ (53 + (upper - lower).toNat) := Nat.pow_le_pow_right two_pos (by omega)

theorem natAbs_apply (s : UnpackedFloat.Sign) (n : Nat) : (s.apply (n : Int)).natAbs = n := by
  cases s <;> simp [UnpackedFloat.Sign.apply]

/-- Numbers of 53 digits are aligned before they are added. -/
theorem fits_normalize_aligned {m n : Nat} {e f total : Int} (s : UnpackedFloat.Sign)
    (normal : 1 < k) (left : m.log2 ≤ 52 ∧ e + 1075 < k) (right : n.log2 ≤ 52 ∧ f + 1075 < k)
    (sizes : total.natAbs ≤ m <<< (e - min e f).toNat + n <<< (f - min e f).toNat) :
    Fits (k + 2) (UnpackedFloat.normalize Format.binary64 total (min e f) s) := by
  have first : m <<< (e - min e f).toNat < 2 ^ (53 + (max e f - min e f).toNat) :=
    aligned_lt left.1 (le_max_left e f)
  have second : n <<< (f - min e f).toNat < 2 ^ (53 + (max e f - min e f).toNat) :=
    aligned_lt right.1 (le_max_right e f)
  apply fits_normalize (j := 53 + (max e f - min e f).toNat) _ (by omega)
  · rw [Nat.pow_succ]
    apply sizes.trans_lt
    omega
  · omega

theorem fits_add (normal : 1 < k) (left : Fits k u) (right : Fits k v) :
    Fits (k + 2) (UnpackedFloat.add Format.binary64 u v) := by
  rcases u with _ | _ | s | ⟨s, m, e, positive⟩
  case infinity | notANumber => contradiction
  case zero =>
    rcases v with _ | _ | t | ⟨t, n, f, positive'⟩
    case infinity | notANumber => contradiction
    case zero =>
      rw [UnpackedFloat.add]
      split <;> trivial
    case finite => exact Fits.mono right (by omega)
  case finite =>
    rcases v with _ | _ | t | ⟨t, n, f, positive'⟩
    case infinity | notANumber => contradiction
    case zero => exact Fits.mono left (by omega)
    case finite =>
      have sizes := Int.natAbs_add_le (s.apply (m <<< (e - min e f).toNat : Nat))
        (t.apply (n <<< (f - min e f).toNat : Nat))
      rw [natAbs_apply, natAbs_apply] at sizes
      exact fits_normalize_aligned _ normal left right sizes

/-- A difference is the sum with the negated second operand. -/
theorem unpackedSub_eq (u v : UnpackedFloat) :
    UnpackedFloat.sub Format.binary64 u v = UnpackedFloat.add Format.binary64 u v.neg := by
  have negated : ∀ (t : UnpackedFloat.Sign) (n : Int), (-t).apply n = -t.apply n := by
    intro t n
    cases t with
    | negative => exact (Int.neg_neg n).symm
    | positive => rfl
  rcases u with _ | _ | _ | ⟨s, m, e, positive⟩ <;>
    rcases v with _ | _ | _ | ⟨t, n, f, positive'⟩ <;> try rfl
  case finite.finite =>
    simp only [UnpackedFloat.sub, UnpackedFloat.neg, UnpackedFloat.add, negated]
    rfl

theorem Fits.neg (fits : Fits k u) : Fits k u.neg := by
  cases u with
  | zero => trivial
  | finite s m e positive => exact fits
  | infinity => contradiction
  | notANumber => contradiction

theorem fits_sub (normal : 1 < k) (left : Fits k u) (right : Fits k v) :
    Fits (k + 2) (UnpackedFloat.sub Format.binary64 u v) := by
  rw [unpackedSub_eq]
  exact fits_add normal left right.neg

/-- The digits of two factors are no more than one more than those of the product. -/
theorem log2_add_le {m n p : Nat} (positive : 0 < m) (positive' : 0 < n) (le : m * n ≤ p) :
    m.log2 + n.log2 ≤ p.log2 := by
  have nonzero : p ≠ 0 := by
    have := Nat.mul_pos positive positive'
    omega
  rw [Nat.le_log2 nonzero, Nat.pow_add]
  exact (Nat.mul_le_mul (Nat.log2_self_le positive.ne') (Nat.log2_self_le positive'.ne')).trans le

/-- The quotient by a normal number whose exponent field is `l` at least. -/
theorem fits_div {s : UnpackedFloat.Sign} {n : Nat} {f : Int} {positive : 0 < n}
    (left : Fits k u) (full : n.log2 = 52) (room : l ≤ f + 1075) (below : l < k + 1022) :
    Fits (k + 1024 - l) (UnpackedFloat.div Format.binary64 u (.finite s n f positive)) := by
  rcases u with _ | _ | t | ⟨t, m, e, positive'⟩
  case infinity | notANumber => contradiction
  case zero => trivial
  case finite =>
    rcases left with ⟨short, exponent⟩
    let target := min (e - f)
      (Format.binary64.targetExponent (totalExponent m e - totalExponent n f))
    let shift := (e - f - target).toNat
    have limit : target ≤ e - f ∧ target ≤ max ((m.log2 : Int) + e - n.log2 - f - 53) (-1074) := by
      simp only [target, targetExponent_eq, totalExponent]
      omega
    have digits : ((m <<< shift / n).log2 : Int) + target + 1023 < (k + 1023 - l : Nat) := by
      rcases Nat.eq_zero_or_pos (m <<< shift / n) with none | some
      · rw [none, Nat.log2_zero]
        omega
      · have product := log2_add_le some positive (Nat.div_mul_le_self (m <<< shift) n)
        rw [log2_shiftLeft positive'] at product
        omega
    have rounded := fits_roundWithAccuracy (k := k + 1023 - l) (t / s)
      (UnpackedFloat.accuracyOfFraction (m <<< shift % n) n) (by omega)
      (show target + 1075 < (k + 1023 - l : Nat) by omega) digits
    exact rounded.mono (by omega)

theorem fits_sqrt {m : Nat} {e : Int} {positive : 0 < m} (normal : 1 < k)
    (fits : Fits k (.finite .positive m e positive)) :
    Fits ((k + 1026) / 2)
      (UnpackedFloat.sqrt Format.binary64 (.finite .positive m e positive)) := by
  rcases fits with ⟨short, exponent⟩
  let target := min (e.ediv 2)
    (Format.binary64.targetExponent ((totalExponent m e + 1).ediv 2))
  let shift := (e - 2 * target).toNat
  have limit : target ≤ e / 2 ∧ target ≤ max (((m.log2 : Int) + 1 + e + 1) / 2 - 53) (-1074) := by
    simp only [target, targetExponent_eq, totalExponent]
    exact ⟨min_le_left _ _, min_le_right _ _⟩
  have digits : ((Nat.sqrt (m <<< shift)).log2 : Int) + target + 1023 < ((k + 1024) / 2 : Nat) := by
    rcases Nat.eq_zero_or_pos (Nat.sqrt (m <<< shift)) with none | some
    · rw [none, Nat.log2_zero]
      omega
    · have square := log2_add_le some some (Nat.sqrt_le (m <<< shift))
      rw [log2_shiftLeft positive] at square
      omega
  have rounded := fits_roundWithAccuracy (k := (k + 1024) / 2) .positive
    (UnpackedFloat.sqrtCore Format.binary64 m e).2.2 (by omega)
    (show target + 1075 < ((k + 1024) / 2 : Nat) by omega) digits
  exact rounded.mono (by omega)

/-! ## Doubles -/

section Doubles

variable {x y : Float}

theorem fits_unpack (normal : 1 < k) (finite : k ≤ 2047) (below : exponentField x < k) :
    Fits k x.toModel.unpack := by
  have mantissa := mantissaField_lt x
  rw [unpack_eq, ofFields, if_neg (by omega)]
  split
  next =>
    split
    next => trivial
    next =>
      have digits := log2_le (j := 51) mantissa
      constructor <;> omega
  next =>
    have digits := log2_le (n := 2 ^ 52 + mantissaField x) (j := 52) (by omega)
    constructor <;> omega

theorem exponentField_of_fits (normal : 1 < k) (finite : k ≤ 2047) (packed : x.toModel = .pack u)
    (fits : Fits k u) : exponentField x < k := by
  have bits : x.toBits.toBitVec = UnpackedFloat.pack Format.binary64 u := by
    have same : x.toBits = x.toModel.toBits := rfl
    rw [same, packed]
    rfl
  have field : exponentField x =
      (@UnpackedFloat.unpackExponent Format.binary64 x.toBits.toBitVec).toNat :=
    (toNat_unpackExponent _).symm
  have bias : Format.binary64.exponentBias = 1023 := rfl
  rw [field, bits]
  rcases u with _ | _ | s | ⟨s, m, e, positive⟩
  case infinity | notANumber => contradiction
  case zero =>
    rw [UnpackedFloat.pack, UnpackedFloat.packedZero, UnpackedFloat.unpackExponent_packComponents]
    exact (Nat.zero_lt_one).trans normal
  case finite =>
    have room := fits.2
    have inside : ¬ 2 ^ 11 ≤ (e + 1023 + 52).toNat + 1 := by omega
    have biased : (e + 1023 + 52).toNat % 2 ^ 11 < k := by omega
    simp only [UnpackedFloat.pack, bias, Nat.cast_ofNat, if_neg inside]
    split
    next =>
      rw [UnpackedFloat.unpackExponent_packComponents, BitVec.toNat_ofNat]
      exact biased
    next =>
      rw [UnpackedFloat.unpackExponent_packComponents]
      exact (Nat.zero_lt_one).trans normal

theorem unpack_normal (normal : 0 < exponentField x) (finite : exponentField x < 2047) :
    x.toModel.unpack = .finite (sign x) (2 ^ 52 + mantissaField x)
      ((exponentField x : Int) - 1075) (by positivity) := by
  rw [unpack_eq, ofFields, if_neg (by omega), if_neg (by omega)]

theorem exponentField_add_lt (normal : 1 < k) (finite : k + 2 ≤ 2047)
    (left : exponentField x < k) (right : exponentField y < k) :
    exponentField (x + y) < k + 2 :=
  exponentField_of_fits (by omega) finite rfl
    (fits_add normal (fits_unpack normal (by omega) left) (fits_unpack normal (by omega) right))

theorem exponentField_sub_lt (normal : 1 < k) (finite : k + 2 ≤ 2047)
    (left : exponentField x < k) (right : exponentField y < k) :
    exponentField (x - y) < k + 2 :=
  exponentField_of_fits (by omega) finite rfl
    (fits_sub normal (fits_unpack normal (by omega) left) (fits_unpack normal (by omega) right))

theorem exponentField_div_lt (normal : 1 < k) (small : k ≤ 2047)
    (finite : k + 1024 ≤ l + 2047) (positive : 0 < l) (below : l < k + 1022)
    (left : exponentField x < k) (right : l ≤ exponentField y) (right' : exponentField y < 2047) :
    exponentField (x / y) < k + 1024 - l := by
  have full : (2 ^ 52 + mantissaField y).log2 = 52 := by
    have mantissa := mantissaField_lt y
    rw [Nat.log2_eq_iff (by omega)]
    omega
  have packed : (x / y).toModel = .pack (UnpackedFloat.div Format.binary64 x.toModel.unpack
      y.toModel.unpack) := rfl
  rw [unpack_normal (by omega) right'] at packed
  exact exponentField_of_fits (by omega) (by omega) packed
    (fits_div (fits_unpack normal small left) full (by omega) below)

theorem exponentField_sqrt_lt (normal : 1 < k) (finite : k ≤ 2047) (below : exponentField x < k)
    (unsigned : sign x = .positive) : exponentField x.sqrt < (k + 1026) / 2 := by
  have packed : x.sqrt.toModel = .pack (UnpackedFloat.sqrt Format.binary64 x.toModel.unpack) := rfl
  have fits := fits_unpack normal finite below
  have room : (k + 1026) / 2 ≤ 2047 := by omega
  rw [unpack_eq, unsigned] at packed fits
  rcases unpacked : ofFields .positive (exponentField x) (mantissaField x) with
    _ | _ | s | ⟨s, m, e, positive⟩
  case infinity | notANumber =>
    rw [unpacked] at fits
    contradiction
  case zero =>
    rw [unpacked] at packed
    exact exponentField_of_fits (by omega) room packed trivial
  case finite =>
    obtain rfl : s = .positive := by
      unfold ofFields at unpacked
      split_ifs at unpacked <;> cases unpacked <;> rfl
    rw [unpacked] at packed fits
    exact exponentField_of_fits (by omega) room packed (fits_sqrt normal fits)

/-- The fields of a finite double are told by the number it unpacks to. -/
theorem fields_of_unpack {s : UnpackedFloat.Sign} {exponent mantissa : Nat}
    (unpacked : x.toModel.unpack = ofFields s exponent mantissa) (finite : exponent < 2047)
    (short : mantissa < 2 ^ 52) : sign x = s ∧ exponentField x = exponent := by
  have mantissa' := mantissaField_lt x
  rw [unpack_eq, ofFields, ofFields, if_neg finite.ne] at unpacked
  split_ifs at unpacked <;> simp_all
  omega

theorem exponentField_abs (finite : exponentField x < 2047) :
    exponentField x.abs = exponentField x :=
  (fields_of_unpack (unpack_abs x) finite (mantissaField_lt x)).2

/-! ### Zeros -/

/-- What is packed from a zero is zero. -/
theorem beq_zero_of_packed {s : UnpackedFloat.Sign} (packed : x.toModel = .pack (.zero s)) :
    (x == 0.0) = true := by
  rw [beq_zero_iff_unpack, packed]
  exact ⟨s, by cases s <;> rfl⟩

theorem exponentField_of_zero (zero : (x == 0.0) = true) : exponentField x = 0 :=
  (beq_zero_iff_fields.mp zero).1

/-- A normal number is no zero. -/
theorem beq_zero_of_normal (normal : 0 < exponentField x) : (x == 0.0) = false := by
  rw [Bool.eq_false_iff]
  intro zero
  rw [exponentField_of_zero zero] at normal
  contradiction

theorem beq_zero_div (zero : (x == 0.0) = true) (normal : 0 < exponentField y)
    (finite : exponentField y < 2047) : (x / y == 0.0) = true := by
  rcases beq_zero_iff_unpack.mp zero with ⟨s, unpacked⟩
  have packed : (x / y).toModel = .pack (UnpackedFloat.div Format.binary64 x.toModel.unpack
      y.toModel.unpack) := rfl
  rw [unpacked, unpack_normal normal finite] at packed
  exact beq_zero_of_packed packed

theorem mul_zero (finite : exponentField x < 2047) (zero : (y == 0.0) = true) :
    (x * y == 0.0) = true := by
  rcases beq_zero_iff_unpack.mp zero with ⟨s, unpacked⟩
  have packed : (x * y).toModel = .pack (UnpackedFloat.mul Format.binary64 x.toModel.unpack
      y.toModel.unpack) := rfl
  have fits := fits_unpack (k := 2047) (by decide) le_rfl finite
  rw [unpacked] at packed
  rcases operand : x.toModel.unpack with _ | _ | _ | _ <;> rw [operand] at packed fits
  case infinity | notANumber => contradiction
  case zero => exact beq_zero_of_packed packed
  case finite => exact beq_zero_of_packed packed

/-- Adding zero to a normal number does not change its exponent. -/
theorem exponentField_add_zero (normal : 0 < exponentField x) (finite : exponentField x < 2047)
    (zero : (y == 0.0) = true) : exponentField (x + y) = exponentField x := by
  rcases beq_zero_iff_unpack.mp zero with ⟨s, unpacked⟩
  have packed : (x + y).toModel = .pack (UnpackedFloat.add Format.binary64 x.toModel.unpack
      y.toModel.unpack) := rfl
  have kept : UnpackedFloat.add Format.binary64 x.toModel.unpack (.zero s) = x.toModel.unpack := by
    rw [unpack_normal normal finite]
    rfl
  rw [unpacked, kept, unpack_eq] at packed
  exact (fields_of_unpack (unpack_of_toModel_eq_pack packed) finite (mantissaField_lt x)).2

/-! ### Rationals -/

theorem fields_ofPattern (negative : Bool) {pattern : Nat} (finite : pattern < infinityPattern) :
    sign (ofPattern negative pattern) = (if negative then .negative else .positive) ∧
      exponentField (ofPattern negative pattern) = pattern / 2 ^ 52 := by
  have limit : infinityPattern = 2047 * 2 ^ 52 := rfl
  exact fields_of_unpack (unpack_ofPattern negative (by omega)) (by omega)
    (Nat.mod_lt _ (Nat.two_pow_pos 52))

theorem nearestPattern_lt_infinityPattern {q : Rat} (small : |q| < overflowThreshold) :
    nearestPattern q.num.natAbs q.den < infinityPattern := by
  rwa [nearestPattern_lt_iff q.den_pos, abs_num_div_den]

/-- The double nearest to a rational has the sign of the rational. -/
theorem sign_ofRat {q : Rat} (small : |q| < overflowThreshold) (nonneg : 0 ≤ q) :
    sign (ofRat q) = .positive := by
  have signs := (fields_ofPattern (q.num < 0) (nearestPattern_lt_infinityPattern small)).1
  rw [ofRat, ofRatio, signs]
  simp [nonneg]

theorem exponentField_ofRat {q : Rat} (small : |q| < overflowThreshold) :
    exponentField (ofRat q) = nearestPattern q.num.natAbs q.den / 2 ^ 52 :=
  (fields_ofPattern (q.num < 0) (nearestPattern_lt_infinityPattern small)).2

theorem exponentField_ofRat_lt {q : Rat} (small : |q| < overflowThreshold) :
    exponentField (ofRat q) < 2047 := by
  rw [exponentField_ofRat small, Nat.div_lt_iff_lt_mul (Nat.two_pow_pos 52)]
  exact nearestPattern_lt_infinityPattern small

theorem exponentField_ofRat_le {q : Rat} {num den : Nat} (small : |q| < overflowThreshold)
    (positive : 0 < den) (below : |q| ≤ num / den) :
    exponentField (ofRat q) ≤ nearestPattern num den / 2 ^ 52 := by
  rw [exponentField_ofRat small]
  apply Nat.div_le_div_right
  apply nearestPattern_mono q.den_pos positive
  rwa [abs_num_div_den]

theorem le_exponentField_ofRat {q : Rat} {num den : Nat} (small : |q| < overflowThreshold)
    (positive : 0 < den) (above : num / den ≤ |q|) :
    nearestPattern num den / 2 ^ 52 ≤ exponentField (ofRat q) := by
  rw [exponentField_ofRat small]
  apply Nat.div_le_div_right
  apply nearestPattern_mono positive q.den_pos
  rwa [abs_num_div_den]

/-! ### Exact forms -/

/-- What the numerator of a double stays below. -/
def numeratorLimit : Nat := 2 ^ 1024

theorem numeratorLimit_le : numeratorLimit ≤ 10 ^ 309 := by decide +kernel

/-- The largest finite double, as a natural number. -/
def largestNat : Nat := (2 ^ 53 - 1) * 2 ^ 971

theorem largestNat_lt_numeratorLimit : largestNat < numeratorLimit := by
  rw [largestNat, numeratorLimit, show 1024 = 53 + 971 from rfl, pow_add]
  exact Nat.mul_lt_mul_of_pos_right (by decide) (pow_pos two_pos _)

/-- No finite double is larger than the largest one, which is an integer. -/
theorem ratio_le_largestNat {d : Dyadic} (form : dyadic? x = some d) :
    d.ratio.1 ≤ largestNat ∧ 0 < d.ratio.2 := by
  have ratio : ∀ d : Dyadic, d.mantissa ≤ 2 ^ 53 - 1 → d.exponent ≤ 971 →
      d.ratio.1 ≤ largestNat ∧ 0 < d.ratio.2 := by
    intro d mantissa exponent
    rw [Dyadic.ratio]
    split
    next =>
      have short : d.exponent.toNat ≤ 971 := by omega
      constructor
      · rw [largestNat]
        dsimp only [Nat.pow_eq]
        gcongr
        exact one_le_two
      · exact Nat.one_pos
    next =>
      constructor
      · rw [largestNat]
        exact mantissa.trans (Nat.le_mul_of_pos_right _ (by positivity))
      · exact Nat.two_pow_pos _
  have fraction : x.toBits.toNat % Nat.pow 2 52 < 2 ^ 52 := mantissaField_lt x
  have field : x.toBits.toNat / Nat.pow 2 52 % Nat.pow 2 11 < 2048 := exponentField_lt x
  rw [dyadic?] at form
  split_ifs at form
  · cases form
    exact ratio _ (by dsimp only; omega) (by dsimp only; decide)
  · cases form
    exact ratio _ (by dsimp only [Nat.pow_eq]; omega) (by dsimp only; omega)

/-- A finite double has an exact form, with a numerator that is not too large. -/
theorem dyadic?_of_finite (finite : exponentField x < 2047) :
    ∃ d, dyadic? x = some d ∧ d.ratio.1 < numeratorLimit ∧ 0 < d.ratio.2 := by
  have biased : x.toBits.toNat / Nat.pow 2 52 % Nat.pow 2 11 < 2047 := finite
  obtain ⟨d, form⟩ : ∃ d, dyadic? x = some d := by
    rw [dyadic?, if_neg (by omega)]
    split <;> exact ⟨_, rfl⟩
  rcases ratio_le_largestNat form with ⟨small, positive⟩
  exact ⟨d, form, small.trans_lt largestNat_lt_numeratorLimit, positive⟩

end Doubles

attribute [irreducible] numeratorLimit largestNat

end ExactRoots.Binary64

namespace ExactRoots.Dyadic

theorem natAbs_truncate (d : Dyadic) : d.truncate.natAbs = d.ratio.1 / d.ratio.2 := by
  rw [truncate]
  dsimp only
  split
  next => rw [Int.natAbs_neg, Int.natAbs_natCast]
  next => rw [Int.natAbs_natCast]

theorem natAbs_nearestInt (d : Dyadic) :
    d.nearestInt.natAbs = roundHalfEven d.ratio.1 d.ratio.2 := by
  rw [nearestInt]
  dsimp only
  split
  next => rw [Int.natAbs_neg, Int.natAbs_natCast]
  next => rw [Int.natAbs_natCast]

end ExactRoots.Dyadic
