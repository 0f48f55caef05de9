import ExactRoots.Proofs.Binary64.Order

/-!
# Signs of doubles

A double is made of a sign, an exponent field and a mantissa field.  Negating it
and taking its absolute value only touch the sign, so they keep its exact form
but for the sign.
-/

namespace ExactRoots.Binary64

open Float.Model
open UnpackedFloat (unpackExponent unpackMantissa unpackSign packComponents)

/-- The unpacked double with the given sign and fields. -/
def ofFields (sign : UnpackedFloat.Sign) (exponent mantissa : Nat) : UnpackedFloat :=
  if exponent = 2047 then
    if mantissa = 0 then .infinity sign else .notANumber
  else if exponent = 0 then
    if nonzero : mantissa = 0 then .zero sign
    else .finite sign mantissa (-1074) (Nat.pos_of_ne_zero nonzero)
  else .finite sign (2 ^ 52 + mantissa) ((exponent : Int) - 1075) (by positivity)

theorem toNat_one_append (mantissa : BitVec 52) :
    (1#1 ++ mantissa).toNat = 2 ^ 52 + mantissa.toNat := by
  change 2 ^ 52 ||| mantissa.toNat = _
  rw [Nat.or_comm, Nat.or_two_pow_eq_add_of_lt mantissa.isLt, Nat.add_comm]

theorem unpack_eq_ofFields (bits : BitVec 64) :
    UnpackedFloat.unpack Format.binary64 bits =
      ofFields (UnpackedFloat.Sign.ofBitVec (@unpackSign Format.binary64 bits))
        (@unpackExponent Format.binary64 bits).toNat
        (@unpackMantissa Format.binary64 bits).toNat := by
  have special : @unpackExponent Format.binary64 bits = -1#_ ↔
      (@unpackExponent Format.binary64 bits).toNat = 2047 := by
    rw [← BitVec.toNat_inj]
    rfl
  have subnormal : @unpackExponent Format.binary64 bits = 0#_ ↔
      (@unpackExponent Format.binary64 bits).toNat = 0 := by
    rw [← BitVec.toNat_inj]
    rfl
  have vanishes : @unpackMantissa Format.binary64 bits = 0#_ ↔
      (@unpackMantissa Format.binary64 bits).toNat = 0 := by
    rw [← BitVec.toNat_inj]
    rfl
  have bias : Format.binary64.exponentBias = 1023 := rfl
  simp only [UnpackedFloat.unpack, ofFields, special, subnormal, vanishes]
  split
  next => rfl
  next =>
    split
    next zero =>
      split
      next => rfl
      next =>
        congr 1
        rw [zero, bias]
        rfl
    next =>
      congr 1
      exact toNat_one_append _

theorem unpackSign_packComponents {sign : UnpackedFloat.Sign} {exponent : BitVec 11}
    {mantissa : BitVec 52} :
    @unpackSign Format.binary64 (packComponents Format.binary64 sign exponent mantissa) =
      sign.toBitVec := by
  change (sign.toBitVec ++ exponent ++ mantissa).extractLsb' 63 1 = _
  rw [BitVec.extractLsb'_append_eq_of_le (by decide),
    BitVec.extractLsb'_append_eq_of_le (by decide)]
  exact BitVec.extractLsb'_eq_self

theorem pack_ofFields {sign : UnpackedFloat.Sign} {exponent mantissa : Nat}
    (exponentBound : exponent < 2048) (mantissaBound : mantissa < 2 ^ 52)
    (number : exponent = 2047 → mantissa = 0) :
    UnpackedFloat.pack Format.binary64 (ofFields sign exponent mantissa) =
      packComponents Format.binary64 sign (.ofNat 11 exponent) (.ofNat 52 mantissa) := by
  have bias : Format.binary64.exponentBias = 1023 := rfl
  have digits : Format.binary64.mantissaBits = 53 := rfl
  unfold ofFields
  split
  next special =>
    subst special
    rw [if_pos (number rfl), number rfl]
    rfl
  next finite =>
    split
    next subnormal =>
      subst subnormal
      split
      next zero =>
        subst zero
        rfl
      next nonzero =>
        have short : mantissa.log2 < 52 := (Nat.log2_lt nonzero).mpr mantissaBound
        have unled : ¬ mantissa.log2 + 1 = 53 := by omega
        simp [UnpackedFloat.pack, bias, digits, unled]
    next normal =>
      have full : (2 ^ 52 + mantissa).log2 = 52 := by
        rw [Nat.log2_eq_iff (by omega)]
        omega
      have biased : ((exponent : Int) - 1075 + 1023 + 52).toNat = exponent := by omega
      have below : ¬ 2 ^ 11 ≤ exponent + 1 := by omega
      have truncated : BitVec.ofNat 52 (2 ^ 52 + mantissa) = BitVec.ofNat 52 mantissa := by
        rw [← BitVec.toNat_inj]
        simp
      simp only [UnpackedFloat.pack, bias, digits, full, Nat.cast_ofNat, biased, truncated,
        if_neg below, if_true]

theorem unpack_pack_ofFields {sign : UnpackedFloat.Sign} {exponent mantissa : Nat}
    (exponentBound : exponent < 2048) (mantissaBound : mantissa < 2 ^ 52) :
    UnpackedFloat.unpack Format.binary64
        (UnpackedFloat.pack Format.binary64 (ofFields sign exponent mantissa)) =
      ofFields sign exponent mantissa := by
  by_cases number : exponent = 2047 → mantissa = 0
  · have signed : UnpackedFloat.Sign.ofBitVec sign.toBitVec = sign := by cases sign <;> rfl
    rw [pack_ofFields exponentBound mantissaBound number, unpack_eq_ofFields,
      unpackSign_packComponents, signed]
    simp only [UnpackedFloat.unpackExponent_packComponents,
      UnpackedFloat.unpackMantissa_packComponents, BitVec.toNat_ofNat,
      Nat.mod_eq_of_lt exponentBound, Nat.mod_eq_of_lt mantissaBound]
  · rw [Classical.not_imp] at number
    rw [ofFields, if_pos number.1, if_neg number.2]
    rfl

/-! ## Fields -/

/-- The sign of a double. -/
def sign (x : Float) : UnpackedFloat.Sign :=
  .ofBitVec (@unpackSign Format.binary64 x.toBits.toBitVec)

/-- The exponent field of a double. -/
def exponentField (x : Float) : Nat := x.toBits.toNat / Nat.pow 2 52 % Nat.pow 2 11

/-- The mantissa field of a double. -/
def mantissaField (x : Float) : Nat := x.toBits.toNat % Nat.pow 2 52

theorem exponentField_lt (x : Float) : exponentField x < 2048 :=
  Nat.mod_lt _ (by decide)

theorem mantissaField_lt (x : Float) : mantissaField x < 2 ^ 52 :=
  Nat.mod_lt _ (by decide)

theorem unpack_eq (x : Float) :
    x.toModel.unpack = ofFields (sign x) (exponentField x) (mantissaField x) := by
  have unfolded : x.toModel.unpack = UnpackedFloat.unpack Format.binary64 x.toBits.toBitVec := rfl
  rw [unfolded, unpack_eq_ofFields, toNat_unpackExponent, toNat_unpackMantissa]
  rfl

/-- A double that is packed from fields unpacks to them. -/
theorem unpack_of_toModel_eq_pack {x y : Float} {s : UnpackedFloat.Sign}
    (packed : y.toModel = .pack (ofFields s (exponentField x) (mantissaField x))) :
    y.toModel.unpack = ofFields s (exponentField x) (mantissaField x) := by
  rw [packed]
  exact unpack_pack_ofFields (exponentField_lt x) (mantissaField_lt x)

theorem ofFields_neg (s : UnpackedFloat.Sign) (exponent mantissa : Nat) :
    (ofFields s exponent mantissa).neg = ofFields (-s) exponent mantissa := by
  unfold ofFields
  split
  · split <;> rfl
  · split
    · split <;> rfl
    · rfl

theorem ofFields_abs (s : UnpackedFloat.Sign) (exponent mantissa : Nat) :
    (ofFields s exponent mantissa).abs = ofFields .positive exponent mantissa := by
  unfold ofFields
  split
  · split <;> rfl
  · split
    · split <;> rfl
    · rfl

theorem unpack_neg (x : Float) :
    (-x).toModel.unpack = ofFields (-sign x) (exponentField x) (mantissaField x) := by
  apply unpack_of_toModel_eq_pack
  rw [← ofFields_neg, ← unpack_eq]
  rfl

theorem unpack_abs (x : Float) :
    x.abs.toModel.unpack = ofFields .positive (exponentField x) (mantissaField x) := by
  apply unpack_of_toModel_eq_pack
  rw [← ofFields_abs (sign x), ← unpack_eq]
  rfl

theorem Place.of_lt_of {r₁ r₂ : ℤ} (below : r₁ < r₂) (e₁ m₁ e₂ m₂ : ℤ) :
    Place.of r₁ e₁ m₁ < .of r₂ e₂ m₂ :=
  Prod.Lex.toLex_lt_toLex.mpr (.inl below)

/-- A double without sign that is a number is at least zero. -/
theorem zero_le_of_unpack_positive {x : Float} {exponent mantissa : Nat}
    (unpacked : x.toModel.unpack = ofFields .positive exponent mantissa)
    (number : x.isNaN = false) : 0.0 ≤ x := by
  rcases isNaN_eq_false_iff.mp number with ⟨a, place⟩
  refine le_iff_places.mpr ⟨.zero, a, place?_zero, place, ?_⟩
  rw [place?, unpacked, ofFields] at place
  split_ifs at place with special _ subnormal _
  · obtain rfl := Option.some.inj place
    exact (Place.of_lt_of two_pos _ _ _ _).le
  · contradiction
  · obtain rfl := Option.some.inj place
    exact le_rfl
  · obtain rfl := Option.some.inj place
    exact (Place.of_lt_of Int.one_pos _ _ _ _).le
  · obtain rfl := Option.some.inj place
    exact (Place.of_lt_of Int.one_pos _ _ _ _).le

/-- A double is finite when its absolute value is. -/
theorem isInf_of_isFinite_abs {x : Float} (finite : x.abs.isFinite = true) : x.isInf = false := by
  have unpackedFinite : x.abs.toModel.unpack.isFinite = true := finite
  have unpackedInf : x.isInf = x.toModel.unpack.isInf := rfl
  rw [unpack_abs, ofFields] at unpackedFinite
  rw [unpackedInf, unpack_eq, ofFields]
  split_ifs at unpackedFinite ⊢ <;> first | rfl | contradiction

/-- An absolute value is at least zero. -/
theorem zero_le_abs {x : Float} (number : x.abs.isNaN = false) : 0.0 ≤ x.abs :=
  zero_le_of_unpack_positive (unpack_abs x) number

theorem toNat_unpackSign (bits : BitVec 64) :
    (@unpackSign Format.binary64 bits).toNat = bits.toNat / Nat.pow 2 63 := by
  have bound : bits.toNat / 2 ^ 63 < 2 := by
    have := bits.isLt
    omega
  simp only [unpackSign, BitVec.toNat_cast, BitVec.extractLsb_toNat]
  change bits.toNat >>> 63 % 2 = bits.toNat / 2 ^ 63
  rw [Nat.shiftRight_eq_div_pow, Nat.mod_eq_of_lt bound]

theorem toModel_ofPattern (negative : Bool) {pattern : Nat} (unsigned : pattern < 2 ^ 63) :
    (ofPattern negative pattern).toModel =
      .pack (ofFields (if negative then .negative else .positive) (pattern / 2 ^ 52)
        (pattern % 2 ^ 52)) := by
  let bits := (UInt64.ofNat (if negative then pattern + Nat.pow 2 63 else pattern)).toBitVec
  have toNat : bits.toNat = if negative then pattern + 2 ^ 63 else pattern := by
    simp only [bits, UInt64.toNat_toBitVec, UInt64.toNat_ofNat', Nat.pow_eq]
    split <;> omega
  have packed : (ofPattern negative pattern).toModel =
      .pack (UnpackedFloat.unpack Format.binary64 bits) := rfl
  have signed : UnpackedFloat.Sign.ofBitVec (@unpackSign Format.binary64 bits) =
      if negative then .negative else .positive := by
    have bit : @unpackSign Format.binary64 bits = if negative then 1#1 else 0#1 := by
      rw [← BitVec.toNat_inj, toNat_unpackSign, toNat, Nat.pow_eq]
      cases negative <;> simp <;> omega
    rw [bit]
    cases negative <;> rfl
  have exponent : (@unpackExponent Format.binary64 bits).toNat = pattern / 2 ^ 52 := by
    have field : (@unpackExponent Format.binary64 bits).toNat = bits.toNat / 2 ^ 52 % 2 ^ 11 := by
      simp [unpackExponent, Nat.shiftRight_eq_div_pow]
    rw [field, toNat]
    split <;> omega
  have mantissa : (@unpackMantissa Format.binary64 bits).toNat = pattern % 2 ^ 52 := by
    have field : (@unpackMantissa Format.binary64 bits).toNat = bits.toNat % 2 ^ 52 := by
      simp [unpackMantissa]
    rw [field, toNat]
    split <;> omega
  rw [packed, unpack_eq_ofFields bits, signed, exponent, mantissa]

/-- The fields of a double that is made from a pattern. -/
theorem unpack_ofPattern (negative : Bool) {pattern : Nat} (unsigned : pattern < 2 ^ 63) :
    (ofPattern negative pattern).toModel.unpack =
      ofFields (if negative then .negative else .positive) (pattern / 2 ^ 52)
        (pattern % 2 ^ 52) := by
  rw [toModel_ofPattern negative unsigned]
  exact unpack_pack_ofFields (by omega) (Nat.mod_lt _ (Nat.two_pow_pos 52))

/-- A pattern without the sign bit is of a double that is at least zero. -/
theorem zero_le_ofPattern {pattern : Nat} (unsigned : pattern < 2 ^ 63)
    (number : (ofPattern false pattern).isNaN = false) : 0.0 ≤ ofPattern false pattern := by
  have unpacked := unpack_ofPattern false unsigned
  rw [if_neg Bool.false_ne_true] at unpacked
  exact zero_le_of_unpack_positive unpacked number

theorem nearestPattern_le (num den : Nat) : nearestPattern num den ≤ infinityPattern := by
  unfold nearestPattern
  split
  next => exact Nat.zero_le _
  next =>
    extract_lets estimate leading unit mantissa
    split
    next => exact Nat.le_refl _
    next => exact Nat.min_le_left _ _

theorem zero_le_ofRatio {num den : Nat} (number : (ofRatio false num den).isNaN = false) :
    0.0 ≤ ofRatio false num den :=
  zero_le_ofPattern ((nearestPattern_le num den).trans_lt (by decide)) number

/-- Rounded square roots are at least zero. -/
theorem zero_le_rootOfRatio {num den : Nat} {scale : Int}
    (number : (rootOfRatio num den scale).isNaN = false) : 0.0 ≤ rootOfRatio num den scale := by
  unfold rootOfRatio at number ⊢
  split at number
  next zero =>
    rw [if_pos zero]
    exact zero_le_ofPattern (by decide) number
  next nonzero =>
    rw [if_neg nonzero]
    dsimp only at number ⊢
    split at number
    next up =>
      rw [if_pos up]
      exact zero_le_ofRatio number
    next down =>
      rw [if_neg down]
      exact zero_le_ofRatio number

/-- The length of a hypotenuse is at least zero. -/
theorem zero_le_hypot {x y : Float} (number : (hypot x y).isNaN = false) : 0.0 ≤ hypot x y := by
  unfold hypot at number ⊢
  split at number
  next => exact zero_le_rootOfRatio number
  next => exact absurd number (by decide)

/-! ## Exact forms -/

/-- The exact form of an unpacked double. -/
def unpackedDyadic? : UnpackedFloat → Option Dyadic
  | .zero s => some ⟨s == .negative, 0, -1074⟩
  | .finite s m e _ => some ⟨s == .negative, m, e⟩
  | .infinity _ | .notANumber => none

theorem isNegative_eq (x : Float) : isNegative x = (sign x == .negative) := by
  have bit := toNat_unpackSign x.toBits.toBitVec
  rw [isNegative, sign, UnpackedFloat.Sign.ofBitVec]
  rw [UInt64.toNat_toBitVec] at bit
  rw [← bit]
  generalize @unpackSign Format.binary64 x.toBits.toBitVec = b
  decide +revert

theorem dyadic?_eq_unpackedDyadic? (x : Float) : dyadic? x = unpackedDyadic? x.toModel.unpack := by
  rw [unpack_eq, dyadic?, ofFields, ← isNegative, isNegative_eq, ← exponentField, ← mantissaField]
  split
  next => split <;> rfl
  next =>
    split
    next =>
      split
      next zero => simp [zero, unpackedDyadic?]
      next => rfl
    next =>
      simp [unpackedDyadic?, Nat.add_comm]

/-- Negation keeps the exact form but for the sign. -/
theorem dyadic?_neg (x : Float) :
    dyadic? (-x) = (dyadic? x).map fun d => { d with negative := !d.negative } := by
  rw [dyadic?_eq_unpackedDyadic?, dyadic?_eq_unpackedDyadic?, unpack_neg, unpack_eq]
  have flipped : (-sign x == .negative) = !(sign x == .negative) := by
    cases sign x <;> rfl
  unfold ofFields
  split_ifs <;> simp [unpackedDyadic?, flipped]

theorem dyadic?_abs (x : Float) :
    dyadic? x.abs = (dyadic? x).map fun d => { d with negative := false } := by
  rw [dyadic?_eq_unpackedDyadic?, dyadic?_eq_unpackedDyadic?, unpack_abs, unpack_eq]
  unfold ofFields
  split_ifs <;> rfl

theorem beq_zero_of_neg {x : Float} (zero : (-x == 0.0) = true) : (x == 0.0) = true := by
  rcases dyadic?_of_beq_zero zero with ⟨d, form, mantissa⟩
  rw [dyadic?_neg] at form
  rcases Option.map_eq_some_iff.mp form with ⟨e, unsigned, rfl⟩
  rw [beq_zero_of_dyadic? unsigned]
  simpa using mantissa

theorem toInt?_neg (x : Float) : toInt? (-x) = (toInt? x).map (-·) := by
  rw [toInt?, toInt?, dyadic?_neg]
  cases dyadic? x with
  | none => rfl
  | some d =>
    have truncated : Dyadic.truncate { d with negative := !d.negative } = -d.truncate := by
      cases d with
      | mk negative mantissa exponent => cases negative <;> simp [Dyadic.truncate, Dyadic.ratio]
    have integral : Dyadic.isIntegral { d with negative := !d.negative } = d.isIntegral := rfl
    simp only [Option.map_some, Option.bind_some, integral, truncated]
    split <;> rfl

end ExactRoots.Binary64
