import ExactRoots.Proofs.Binary64.Position
import ExactRoots.Proofs.Proportion

/-!
# Values of doubles

A finite double is some number of doubles away from zero, and its value grows with
that number.  The value of the double nearest to a rational is within half a unit of
the rational, and it is the rational itself where that is the value of a double.
-/

namespace ExactRoots

/-- The rational that a dyadic number denotes, with its sign in front. -/
theorem Dyadic.toRat_eq (d : Dyadic) :
    d.toRat = if d.negative then -((d.mantissa : Rat) * 2 ^ d.exponent)
      else (d.mantissa : Rat) * 2 ^ d.exponent := by
  have size : (d.ratio.1 / d.ratio.2 : Rat) = d.mantissa * 2 ^ d.exponent := by
    rw [Dyadic.ratio]
    split
    next above =>
      obtain ⟨k, exponent⟩ : ∃ k : Nat, d.exponent = k := ⟨d.exponent.toNat, by omega⟩
      simp [exponent]
    next below =>
      obtain ⟨k, exponent⟩ : ∃ k : Nat, d.exponent = -k := ⟨d.exponent.natAbs, by omega⟩
      simp [exponent, div_eq_mul_inv]
  rw [Dyadic.toRat]
  dsimp only
  rw [Rat.mkRat_eq_div]
  split
  next => rw [← size, Int.cast_neg, Int.cast_natCast, neg_div]
  next => rw [← size, Int.cast_natCast]

/-- A dyadic number that denotes an integer has that integer as its integer part. -/
theorem Dyadic.toRat_eq_intCast_iff {d : Dyadic} {n : Int} :
    d.toRat = n ↔ d.isIntegral = true ∧ d.truncate = n := by
  have positive : 0 < d.ratio.2 := by
    rw [Dyadic.ratio]
    split
    · exact Nat.one_pos
    · exact Nat.two_pow_pos _
  have nonzero : (d.ratio.2 : Rat) ≠ 0 := (Nat.cast_pos.mpr positive).ne'
  rw [Dyadic.toRat, Dyadic.isIntegral, Dyadic.truncate]
  dsimp only
  generalize d.ratio.1 = num at *
  generalize d.ratio.2 = den at *
  rw [Rat.mkRat_eq_div, div_eq_iff nonzero, beq_iff_eq]
  constructor
  · intro same
    have same : (if d.negative then -(num : Int) else num) = n * den := by exact_mod_cast same
    have whole : num % den = 0 := by
      have divides : (den : Int) ∣ num := by
        split at same
        next => exact ⟨-n, by linarith⟩
        next => exact ⟨n, by linarith⟩
      exact Nat.mod_eq_zero_of_dvd (Int.natCast_dvd_natCast.mp divides)
    refine ⟨whole, ?_⟩
    rcases Nat.dvd_of_mod_eq_zero whole with ⟨k, rfl⟩
    rw [Nat.mul_div_cancel_left k positive]
    have factor : (den : Int) ≠ 0 := by omega
    split at same
    next negative =>
      rw [if_pos negative]
      apply mul_right_cancel₀ factor
      push_cast at same
      linarith
    next nonneg =>
      rw [if_neg nonneg]
      apply mul_right_cancel₀ factor
      push_cast at same
      linarith
  · rintro ⟨whole, rfl⟩
    rcases Nat.dvd_of_mod_eq_zero whole with ⟨k, rfl⟩
    rw [Nat.mul_div_cancel_left k positive]
    split <;> push_cast <;> ring

namespace Binary64

open Float.Model

theorem toInt?_eq_some_iff {x : Float} {n : Int} : toInt? x = some n ↔ toRat? x = some (n : Rat) := by
  rw [toInt?, toRat?]
  cases dyadic? x with
  | none => simp
  | some d => simp [Dyadic.toRat_eq_intCast_iff]

/-! ## Values -/

/-- The value of the double without sign that has a pattern. -/
def patternValue (pattern : Nat) : Rat :=
  let exponent : Nat := max 1 (pattern / 2 ^ 52)
  (pattern - (exponent - 1) * 2 ^ 52 : Nat) * 2 ^ ((exponent : Int) - 1075)

/-- The value of the double at a signed distance from zero, counted in doubles. -/
def valueAt (n : Int) : Rat := if n < 0 then -patternValue n.natAbs else patternValue n.natAbs

/-- The next larger value. -/
theorem patternValue_succ (pattern : Nat) :
    patternValue (pattern + 1) =
      patternValue pattern + 2 ^ (((max 1 (pattern / 2 ^ 52) : Nat) : Int) - 1075) := by
  unfold patternValue
  dsimp only
  by_cases carry : (pattern + 1) / 2 ^ 52 = pattern / 2 ^ 52
  · rw [carry]
    have digits : pattern + 1 - (max 1 (pattern / 2 ^ 52) - 1) * 2 ^ 52 =
        pattern - (max 1 (pattern / 2 ^ 52) - 1) * 2 ^ 52 + 1 := by omega
    rw [digits, Nat.cast_add, Nat.cast_one, add_mul, one_mul]
  · -- a carry goes to the exponent, and halves the mantissa if there is one
    obtain ⟨k, last⟩ : ∃ k, pattern + 1 = (k + 1) * 2 ^ 52 := ⟨pattern / 2 ^ 52, by omega⟩
    have above : (pattern + 1) / 2 ^ 52 = k + 1 := by omega
    have below : pattern / 2 ^ 52 = k := by omega
    rw [above, below]
    rcases Nat.eq_zero_or_pos k with rfl | positive
    · have one : max 1 (0 + 1) = 1 := rfl
      have one' : max 1 0 = 1 := rfl
      rw [one, one', Nat.sub_self, Nat.zero_mul, Nat.sub_zero, Nat.sub_zero, Nat.cast_add,
        Nat.cast_one, add_mul, one_mul]
    · have first : pattern + 1 - (max 1 (k + 1) - 1) * 2 ^ 52 = 2 ^ 52 := by omega
      have second : pattern - (max 1 k - 1) * 2 ^ 52 + 1 = 2 ^ 53 := by omega
      have exponent : ((max 1 (k + 1) : Nat) : Int) - 1075 =
          ((max 1 k : Nat) : Int) - 1075 + 1 := by omega
      have doubled : ((pattern - (max 1 k - 1) * 2 ^ 52 : Nat) : Rat) + 1 = 2 ^ 53 := by
        exact_mod_cast second
      rw [first, exponent, zpow_add_one₀ two_ne_zero, ← add_one_mul, doubled]
      push_cast
      ring

theorem patternValue_strictMono : StrictMono patternValue := by
  apply strictMono_nat_of_lt_succ
  intro pattern
  rw [patternValue_succ]
  exact lt_add_of_pos_right _ (by positivity)

@[simp]
theorem patternValue_zero : patternValue 0 = 0 := by norm_num [patternValue]

theorem patternValue_nonneg (pattern : Nat) : 0 ≤ patternValue pattern := by
  rw [← patternValue_zero]
  exact patternValue_strictMono.monotone (Nat.zero_le pattern)

theorem valueAt_natCast (pattern : Nat) : valueAt pattern = patternValue pattern := by
  rw [valueAt, if_neg (by omega), Int.natAbs_natCast]

@[simp]
theorem valueAt_zero : valueAt 0 = 0 := by simp [valueAt]

@[simp]
theorem valueAt_neg (n : Int) : valueAt (-n) = -valueAt n := by
  rcases lt_trichotomy n 0 with negative | rfl | positive
  · rw [valueAt, valueAt, if_neg (by omega), if_pos negative, Int.natAbs_neg, neg_neg]
  · simp
  · rw [valueAt, valueAt, if_pos (by omega), if_neg (by omega), Int.natAbs_neg]

/-- Values are ordered as the distances from zero are. -/
theorem valueAt_strictMono : StrictMono valueAt := by
  intro m n less
  unfold valueAt
  split
  next negative =>
    split
    next negative' =>
      exact neg_lt_neg (patternValue_strictMono (by omega))
    next nonneg =>
      have below : 0 < patternValue m.natAbs := by
        rw [← patternValue_zero]
        exact patternValue_strictMono (by omega)
      exact (neg_neg_of_pos below).trans_le (patternValue_nonneg _)
  next nonneg =>
    rw [if_neg (by omega)]
    exact patternValue_strictMono (by omega)

/-! ## Doubles -/

theorem toRat?_congr {x y : Float} (same : x.toModel.unpack = y.toModel.unpack) :
    toRat? x = toRat? y := by
  rw [toRat?, toRat?, dyadic?_eq_unpackedDyadic?, dyadic?_eq_unpackedDyadic?, same]

theorem place?_congr {x y : Float} (same : x.toModel.unpack = y.toModel.unpack) :
    place? x = place? y := by
  rw [place?, place?, same]

/-- A finite double is made from its pattern and its sign. -/
theorem exists_ofPattern {x : Float} (finite : exponentField x < 2047) :
    ∃ negative pattern, pattern < infinityPattern ∧
      x.toModel.unpack = (ofPattern negative pattern).toModel.unpack := by
  have limit : infinityPattern = 2047 * 2 ^ 52 := rfl
  have mantissa := mantissaField_lt x
  have bound : exponentField x * 2 ^ 52 + mantissaField x < infinityPattern := by omega
  have exponent : (exponentField x * 2 ^ 52 + mantissaField x) / 2 ^ 52 = exponentField x := by
    omega
  have rest : (exponentField x * 2 ^ 52 + mantissaField x) % 2 ^ 52 = mantissaField x := by omega
  refine ⟨sign x == .negative, _, bound, ?_⟩
  rw [unpack_ofPattern _ (bound.trans (by decide)), exponent, rest, unpack_eq]
  cases sign x <;> rfl

/-- The value of a double that is made from a pattern. -/
theorem toRat?_ofPattern (negative : Bool) {pattern : Nat} (finite : pattern < infinityPattern) :
    toRat? (ofPattern negative pattern) =
      some (valueAt (if negative then -(pattern : Int) else pattern)) := by
  have limit : infinityPattern = 2047 * 2 ^ 52 := rfl
  have signed : ∀ (m : Nat) (e : Int), patternValue pattern = m * 2 ^ e →
      Dyadic.toRat ⟨negative, m, e⟩ = valueAt (if negative then -(pattern : Int) else pattern) := by
    intro m e value
    rw [Dyadic.toRat_eq]
    cases negative with
    | false => simp [valueAt_natCast, value]
    | true => simp [valueAt_natCast, value]
  have bit : ((if negative = true then UnpackedFloat.Sign.negative else .positive) ==
      UnpackedFloat.Sign.negative) = negative := by
    cases negative <;> rfl
  rw [toRat?, dyadic?_eq_unpackedDyadic?, unpack_ofPattern negative (by omega), ofFields,
    if_neg (by omega)]
  split
  next subnormal =>
    have value : patternValue pattern = ((pattern % 2 ^ 52 : Nat) : Rat) * 2 ^ (-1074 : Int) := by
      rw [patternValue, subnormal, Nat.mod_eq_of_lt (by omega)]
      rfl
    split
    next zero =>
      rw [zero] at value
      simp only [unpackedDyadic?, bit, Option.map_some, signed _ _ value]
    next => simp only [unpackedDyadic?, bit, Option.map_some, signed _ _ value]
  next normal =>
    have value : patternValue pattern = ((2 ^ 52 + pattern % 2 ^ 52 : Nat) : Rat) *
        2 ^ (((pattern / 2 ^ 52 : Nat) : Int) - 1075) := by
      have digits : pattern - (pattern / 2 ^ 52 - 1) * 2 ^ 52 = 2 ^ 52 + pattern % 2 ^ 52 := by
        omega
      rw [patternValue, max_eq_right (Nat.one_le_iff_ne_zero.mpr normal), digits]
    simp only [unpackedDyadic?, bit, Option.map_some, signed _ _ value]

/-- A finite double has a place among the doubles and the value there. -/
theorem exists_valueAt {x : Float} (finite : exponentField x < 2047) :
    ∃ n : Int, n.natAbs < infinityPattern ∧ place? x = some (.ofPosition n) ∧
      toRat? x = some (valueAt n) := by
  rcases exists_ofPattern finite with ⟨negative, pattern, bound, unpacked⟩
  refine ⟨if negative then -(pattern : Int) else pattern, ?_, ?_, ?_⟩
  · cases negative <;> simpa using bound
  · rw [place?_congr unpacked, place?_ofPattern negative bound.le]
  · rw [toRat?_congr unpacked, toRat?_ofPattern negative bound]

/-! ## Rationals -/

theorem valueAt_position {q : Rat} (nonneg : 0 ≤ q) :
    valueAt (position q) = patternValue (nearestPattern q.num.natAbs q.den) := by
  rw [position, if_neg (Int.not_lt.mpr (Rat.num_nonneg.mpr nonneg)), valueAt_natCast]

/-- The value of the double nearest to a rational. -/
theorem toRat?_ofRat {q : Rat} (small : |q| < overflowThreshold) :
    toRat? (ofRat q) = some (valueAt (position q)) := by
  have finite : nearestPattern q.num.natAbs q.den < infinityPattern := by
    rwa [nearestPattern_lt_iff q.den_pos, abs_num_div_den]
  rw [ofRat, ofRatio, toRat?_ofPattern _ finite, position]
  simp only [decide_eq_true_eq]

@[simp]
theorem position_neg (q : Rat) : position (-q) = -position q := by
  unfold position
  rw [Rat.neg_num, Rat.neg_den, Int.natAbs_neg]
  rcases lt_trichotomy q.num 0 with negative | zero | positive
  · rw [if_neg (by omega), if_pos negative, neg_neg]
  · simp [zero, nearestPattern_zero]
  · rw [if_pos (by omega), if_neg (by omega)]

/-- The doubles nearest to a number and to its size have the same size. -/
theorem abs_valueAt_position (q : Rat) : |valueAt (position q)| = valueAt (position |q|) := by
  have unsigned : ∀ {p : Rat}, 0 ≤ p → |valueAt (position p)| = valueAt (position p) := by
    intro p nonneg
    rw [valueAt_position nonneg, abs_of_nonneg (patternValue_nonneg _)]
  rcases le_total 0 q with positive | negative
  · rw [abs_of_nonneg positive, unsigned positive]
  · rw [← unsigned (abs_nonneg q), abs_of_nonpos negative, position_neg, valueAt_neg, abs_neg]

/-- The value of a mantissa in units of a power of two. -/
theorem patternValue_of_digits {t m : Nat} (short : m ≤ 2 ^ 53) (normal : t = 0 ∨ 2 ^ 52 ≤ m) :
    patternValue (t * 2 ^ 52 + m) = m * 2 ^ ((t : Int) - 1074) := by
  unfold patternValue
  dsimp only
  rcases Nat.lt_or_ge m (2 ^ 52) with subnormal | full
  · obtain rfl := normal.resolve_right (by omega)
    rw [show (0 * 2 ^ 52 + m) / 2 ^ 52 = 0 by omega]
    simp
  rcases short.lt_or_eq with below | rfl
  · have exponent : (t * 2 ^ 52 + m) / 2 ^ 52 = t + 1 := by omega
    have digits : t * 2 ^ 52 + m - (max 1 (t + 1) - 1) * 2 ^ 52 = m := by omega
    rw [exponent, digits]
    congr 2
    omega
  · -- the mantissa is rounded up to the next power of two
    have exponent : (t * 2 ^ 52 + 2 ^ 53) / 2 ^ 52 = t + 2 := by omega
    have digits : t * 2 ^ 52 + 2 ^ 53 - (max 1 (t + 2) - 1) * 2 ^ 52 = 2 ^ 52 := by omega
    have above : ((max 1 (t + 2) : Nat) : Int) - 1075 = (t : Int) - 1074 + 1 := by omega
    rw [exponent, digits, above, zpow_add_one₀ two_ne_zero]
    push_cast
    ring

section Quotient

variable {num den : Nat} (numPositive : 0 < num) (positive : 0 < den)

include numPositive positive

/-- The value of the pattern of a quotient. -/
theorem patternValue_nearestPattern (finite : nearestPattern num den < infinityPattern) :
    patternValue (nearestPattern num den) =
      mantissa (unit num den) num den * 2 ^ unit num den := by
  have least := (unit_spec numPositive positive).1
  have short := mantissa_unit_le numPositive positive
  have long := le_mantissa_unit numPositive positive
  rw [nearestPattern_eq numPositive positive] at finite ⊢
  rw [min_eq_right (by omega), patternValue_of_digits short]
  · congr 2
    omega
  · by_cases subnormal : unit num den = -1074
    · left
      omega
    · exact .inr (long subnormal)

/-- A quotient is within half a unit of the value of its pattern. -/
theorem abs_patternValue_sub_le (finite : nearestPattern num den < infinityPattern) :
    |patternValue (nearestPattern num den) - num / den| ≤ 2 ^ unit num den / 2 := by
  have power : (0 : Rat) < 2 ^ unit num den := by positivity
  have near := @abs_mantissa_sub_le num den positive (unit num den)
  have scaled : (mantissa (unit num den) num den * 2 ^ unit num den : Rat) - num / den =
      (mantissa (unit num den) num den - num / den / 2 ^ unit num den) * 2 ^ unit num den := by
    field_simp
  rw [patternValue_nearestPattern numPositive positive finite, scaled, abs_mul, abs_of_pos power]
  linarith [mul_le_mul_of_nonneg_right near power.le]

/-- The unit of a number with at most 53 digits, of which the first may only be zero in the least
unit. -/
theorem unit_of_digits {t m : Nat} (value : (num / den : Rat) = m * 2 ^ ((t : Int) - 1074))
    (short : m < 2 ^ 53) (normal : t = 0 ∨ 2 ^ 52 ≤ m) : unit num den = (t : Int) - 1074 := by
  rcases unit_spec numPositive positive with ⟨least, upper, lower⟩
  have power : (0 : Rat) < 2 ^ ((t : Int) - 1074) := by positivity
  have above : (num / den : Rat) < 2 ^ ((t : Int) - 1074 + 53) := by
    rw [value, zpow_add₀ two_ne_zero, mul_comm]
    exact mul_lt_mul_of_pos_left (by exact_mod_cast short) power
  have below : t = 0 ∨ (2 : Rat) ^ ((t : Int) - 1074 + 52) ≤ num / den := by
    refine normal.imp_right fun long => ?_
    rw [value, zpow_add₀ two_ne_zero, mul_comm]
    exact mul_le_mul_of_nonneg_right (by exact_mod_cast long) power.le
  have ordered : ∀ {a b : Int}, (2 : Rat) ^ a ≤ num / den → (num / den : Rat) < 2 ^ b → a < b :=
    fun first second => (zpow_lt_zpow_iff_right₀ one_lt_two).mp (first.trans_lt second)
  apply le_antisymm
  · rcases lower with small | lower
    · omega
    · have := ordered lower above
      omega
  · rcases below with rfl | below
    · exact least
    · have := ordered below upper
      omega

end Quotient

/-- The pattern of a value is the one that it is the value of. -/
theorem nearestPattern_of_eq_patternValue {pattern num den : Nat}
    (finite : pattern < infinityPattern) (positive : 0 < den)
    (value : (num / den : Rat) = patternValue pattern) : nearestPattern num den = pattern := by
  have denPositive : (0 : Rat) < den := Nat.cast_pos.mpr positive
  rcases Nat.eq_zero_or_pos num with rfl | numPositive
  · rw [Nat.cast_zero, zero_div, ← patternValue_zero] at value
    rw [nearestPattern_zero]
    exact patternValue_strictMono.injective value
  obtain ⟨t, m, short, normal, rfl⟩ : ∃ t m : Nat, m < 2 ^ 53 ∧ (t = 0 ∨ 2 ^ 52 ≤ m) ∧
      pattern = t * 2 ^ 52 + m := by
    rcases Nat.lt_or_ge pattern (2 ^ 52) with subnormal | large
    · exact ⟨0, pattern, by omega, .inl rfl, by omega⟩
    · exact ⟨pattern / 2 ^ 52 - 1, 2 ^ 52 + pattern % 2 ^ 52, by omega, .inr (by omega), by omega⟩
  rw [patternValue_of_digits short.le normal] at value
  have least := unit_of_digits numPositive positive value short normal
  have power : (0 : Rat) < 2 ^ ((t : Int) - 1074) := by positivity
  have near := @abs_mantissa_sub_le num den positive ((t : Int) - 1074)
  rw [value, mul_div_cancel_right₀ _ power.ne'] at near
  have exact_ : mantissa ((t : Int) - 1074) num den = m := by
    have close : |((mantissa ((t : Int) - 1074) num den : Int) : Rat) - (m : Int)| < 1 := by
      push_cast
      linarith
    have close : |(mantissa ((t : Int) - 1074) num den : Int) - m| < 1 := by exact_mod_cast close
    rw [Int.abs_lt_one_iff] at close
    omega
  rw [nearestPattern_eq numPositive positive, least, exact_, min_eq_right (by omega)]
  congr 2
  omega

theorem position_patternValue {pattern : Nat} (finite : pattern < infinityPattern) :
    position (patternValue pattern) = pattern := by
  have nonneg := patternValue_nonneg pattern
  rw [position, if_neg (Int.not_lt.mpr (Rat.num_nonneg.mpr nonneg)),
    nearestPattern_of_eq_patternValue finite (Rat.den_pos _)]
  rw [abs_num_div_den, abs_of_nonneg nonneg]

/-- The double nearest to a value is the one with that value. -/
theorem position_valueAt {n : Int} (finite : n.natAbs < infinityPattern) :
    position (valueAt n) = n := by
  have natural : position (valueAt n.natAbs) = n.natAbs := by
    rw [valueAt_natCast, position_patternValue finite]
  rcases le_total 0 n with nonneg | nonpos
  · rwa [Int.natAbs_of_nonneg nonneg] at natural
  · have negated : n = -(n.natAbs : Int) := by omega
    rw [negated, valueAt_neg, position_neg, natural]

/-- A rational is within half a unit of the value of the double next to it; the unit is small
beside the rational, or it is the least one. -/
theorem abs_valueAt_position_sub_le {q : Rat} (small : |q| < overflowThreshold) :
    |valueAt (position q) - q| ≤ max (|q| / 2 ^ 53) (2 ^ (-1075 : Int)) := by
  have nonneg : ∀ {p : Rat}, 0 ≤ p → p < overflowThreshold →
      |valueAt (position p) - p| ≤ max (p / 2 ^ 53) (2 ^ (-1075 : Int)) := by
    intro p nonneg below
    rcases nonneg.eq_or_lt with rfl | positive
    · simp [position, nearestPattern_zero]
    have quotient : (p.num.natAbs / p.den : Rat) = p := by
      rw [abs_num_div_den, abs_of_pos positive]
    have numPositive : 0 < p.num.natAbs := Int.natAbs_pos.mpr (Rat.num_pos.mpr positive).ne'
    have finite : nearestPattern p.num.natAbs p.den < infinityPattern := by
      rwa [nearestPattern_lt_iff p.den_pos, quotient]
    have near := abs_patternValue_sub_le numPositive p.den_pos finite
    rw [quotient] at near
    rw [valueAt_position nonneg]
    apply near.trans
    rcases (unit_spec numPositive p.den_pos).2.2 with least | normal
    · rw [least]
      apply le_max_of_le_right
      rw [show (-1074 : Int) = -1075 + 1 by rfl, zpow_add_one₀ two_ne_zero,
        mul_div_cancel_right₀ _ two_ne_zero]
    · rw [quotient] at normal
      apply le_max_of_le_left
      rw [zpow_add₀ two_ne_zero] at normal
      rw [le_div_iff₀ (by positivity)]
      calc (2 : Rat) ^ unit p.num.natAbs p.den / 2 * 2 ^ 53
          = 2 ^ unit p.num.natAbs p.den * 2 ^ (52 : Int) := by
            norm_num
            ring
        _ ≤ p := normal
  rcases le_total 0 q with positive | negative
  · rw [abs_of_nonneg positive] at small ⊢
    exact nonneg positive small
  · rw [abs_of_nonpos negative] at small ⊢
    have opposite := nonneg (neg_nonneg.mpr negative) small
    rwa [position_neg, valueAt_neg, ← neg_sub', abs_neg] at opposite

/-- Half of the least double beside the least normal one. -/
theorem two_zpow_half_least : (2 : Rat) ^ (-1075 : Int) = 2 ^ (-1022 : Int) / 2 ^ 53 := by
  rw [← zpow_natCast, ← zpow_sub₀ two_ne_zero]
  rfl

/-- The double nearest to a normal number is near to it in proportion. -/
theorem near_position {q : Rat} (positive : 0 < q) (small : q < overflowThreshold)
    (normal : 2 ^ (-1022 : Int) ≤ q) : Near (1 / 2 ^ 53) (valueAt (position q)) q := by
  have near := abs_valueAt_position_sub_le (by rwa [abs_of_pos positive])
  rw [abs_of_pos positive, two_zpow_half_least, max_eq_left (by gcongr)] at near
  exact near.trans_eq (by ring)

theorem position_nonneg {q : Rat} (nonneg : 0 ≤ q) : 0 ≤ position q := by
  rw [position, if_neg (Int.not_lt.mpr (Rat.num_nonneg.mpr nonneg))]
  exact Int.natCast_nonneg _

/-- What is no larger than half the least double is rounded to zero. -/
theorem position_eq_zero_iff {q : Rat} : position q = 0 ↔ |q| ≤ 2 ^ (-1075 : Int) := by
  have half : ∀ {p : Rat}, 0 ≤ p → (position p = 0 ↔ p ≤ 2 ^ (-1075 : Int)) := by
    intro p nonneg
    constructor
    · intro zero
      have pattern : nearestPattern p.num.natAbs p.den = 0 := by
        rw [position, if_neg (Int.not_lt.mpr (Rat.num_nonneg.mpr nonneg))] at zero
        exact_mod_cast zero
      have small : |p| < overflowThreshold := by
        rw [← abs_num_div_den, ← nearestPattern_lt_iff p.den_pos, pattern]
        decide
      have near := abs_valueAt_position_sub_le small
      rw [zero, valueAt_zero, zero_sub, abs_neg, abs_of_nonneg nonneg, le_max_iff] at near
      rcases near with vanishing | tiny
      · have : p ≤ 0 := by linarith
        exact this.trans (by positivity)
      · exact tiny
    · intro below
      have least : position (2 ^ (-1075 : Int)) = 0 := by decide +kernel
      exact le_antisymm (least ▸ position_mono below) (position_nonneg nonneg)
  rcases le_total 0 q with positive | negative
  · rw [abs_of_nonneg positive, half positive]
  · rw [abs_of_nonpos negative, ← half (neg_nonneg.mpr negative), position_neg, neg_eq_zero]

theorem ofPattern_beq_zero_iff (negative : Bool) {pattern : Nat}
    (bound : pattern ≤ infinityPattern) :
    (ofPattern negative pattern == 0.0) = true ↔ pattern = 0 := by
  have limit : infinityPattern = 2047 * 2 ^ 52 := rfl
  have zero : Place.zero = .ofPosition 0 := rfl
  rw [beq_zero_iff, place?_ofPattern negative bound, Option.some.injEq, zero,
    Place.ofPosition_strictMonoOn.injOn.eq_iff (by split <;> rw [Set.mem_Icc] <;> omega)
      (Set.mem_Icc.mpr (by omega))]
  split <;> omega

/-- A rational is rounded to zero exactly when it is no larger than half the least double. -/
theorem ofRat_beq_zero_iff {q : Rat} : (ofRat q == 0.0) = true ↔ |q| ≤ 2 ^ (-1075 : Int) := by
  rw [ofRat, ofRatio, ofPattern_beq_zero_iff _ (nearestPattern_le _ _), ← position_eq_zero_iff,
    position]
  split <;> omega

end Binary64

end ExactRoots
