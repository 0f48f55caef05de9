import ExactRoots.Proofs.Decimal.Accuracy
import ExactRoots.Proofs.Decimal.Nearest
import ExactRoots.Proofs.Binary64.Integer
import ExactRoots.Proofs.Value.WholeRoot

/-!
# The accuracy of square roots

The square of the root of a rational is near to the rational, in proportion, if the
rational is a square or not below the least normal double.  The root of a smaller number
is the root of a double that has few digits or is zero, even where the root itself is a
normal number.
-/

namespace ExactRoots

namespace Binary64

variable {x : Float} {p q : Rat}

/-- The largest double. -/
def largest : Rat := (2 ^ 53 - 1) * 2 ^ (971 : Int)

theorem largest_nonneg : 0 ≤ largest := mul_nonneg (by norm_num) (by positivity)

/-- A number whose square is near to another one is between its root and a half of one. -/
theorem between_of_near_square {y : Rat} (nonneg : 0 ≤ p) (near : Near (1 / 2) (p * p) q)
    (one : 1 ≤ q) (above : 0 ≤ y) (upper : q ≤ y * y) : 1 / 2 ≤ p ∧ p ≤ 2 * y := by
  have lower := near.ge
  have higher := near.le
  constructor
  · rw [mul_self_le_mul_self_iff (by norm_num) nonneg]
    linarith
  · rw [mul_self_le_mul_self_iff nonneg (by linarith)]
    linarith

/-- The square of the square root of a double is near to the double in proportion. -/
theorem sqrt_near (value : toRat? x = some p) (positive : 0 < p) :
    ∃ r, toRat? x.sqrt = some r ∧ 0 < r ∧ Near (1 / 2 ^ 51 + 1 / 2 ^ 100) (r * r) p := by
  rcases sqrt_spec value positive with ⟨n, large, -, -, root, upper, lower⟩
  have some : 0 < patternValue n := by
    rw [← patternValue_zero]
    exact patternValue_strictMono (by omega)
  refine ⟨_, root, some, ?_⟩
  generalize patternValue n = r at *
  have square : 0 < r * r := mul_pos some some
  rw [Near, abs_le]
  constructor
  · calc -((1 / 2 ^ 51 + 1 / 2 ^ 100) * p) ≤ -(1 - 1 / (1 + 1 / 2 ^ 52) ^ 2) * p := by
          rw [← neg_mul]
          exact mul_le_mul_of_nonneg_right (by norm_num) positive.le
      _ ≤ r * r - p := by
        have : p / (1 + 1 / 2 ^ 52) ^ 2 ≤ r * r := by
          rw [div_le_iff₀ (by positivity)]
          linarith
        linarith
  · calc r * r - p ≤ (1 / (1 - 1 / 2 ^ 52) ^ 2 - 1) * p := by
          have : r * r ≤ p / (1 - 1 / 2 ^ 52) ^ 2 := by
            rw [le_div_iff₀ (by norm_num)]
            linarith
          linarith
      _ ≤ (1 / 2 ^ 51 + 1 / 2 ^ 100) * p := mul_le_mul_of_nonneg_right (by norm_num) positive.le

end Binary64

namespace Value

open Outcome Binary64

variable {q : Rat}

theorem standing_ofFloat {x : Float} {p : Rat} (value : toRat? x = some p) (dropFloat : Bool) :
    (ofFloat dropFloat x).standing = .finite p := by
  have float : (Value.float x).standing = .finite p := by
    simp only [standing, Standing.ofFloat, value]
  unfold ofFloat
  split
  next =>
    split
    next n whole =>
      rw [toInt?_eq_some_iff, value, Option.some.injEq] at whole
      rw [whole]
      rfl
    next => exact float
  next => exact float

/-! ## Floating roots -/

theorem floatRoot_of_lt (positive : 0 < q) (inside : q < overflowThreshold) :
    floatRoot q = .ok (Binary64.ofRat q).sqrt := by
  rw [floatRoot, ofRat?_eq, if_pos (by rwa [abs_of_pos positive])]

/-- The root of a normal number is accurate. -/
theorem floatRoot_normal (positive : 0 < q) (inside : q < overflowThreshold)
    (normal : 2 ^ (-1022 : Int) ≤ q) : ∃ x p, floatRoot q = .ok x ∧ toRat? x = some p ∧
      0 < p ∧ Near (1 / 2 ^ 50) (p * p) q := by
  have near := near_position positive inside normal
  have some : 0 < valueAt (position q) :=
    (mul_pos (by norm_num) positive).trans_le near.ge
  rcases sqrt_near (toRat?_ofRat (by rwa [abs_of_pos positive])) some with ⟨p, root, above, square⟩
  exact ⟨_, p, floatRoot_of_lt positive inside, root, above,
    (square.trans near (by norm_num)).mono (by norm_num) positive.le⟩

/-- The root of a number below the normal ones is the root of the double next to it. -/
theorem floatRoot_subnormal (positive : 0 < q) (small : q < 2 ^ (-1022 : Int)) :
    ∃ x p, floatRoot q = .ok x ∧ toRat? x = some p ∧ 0 ≤ p ∧ (p = 0 ↔ q ≤ 2 ^ (-1075 : Int)) ∧
      |p * p - q| ≤ 2 ^ (-50 : Int) * q + 2 ^ (-1074 : Int) := by
  have inside : q < overflowThreshold :=
    (small.trans_le (zpow_le_one_of_nonpos₀ one_le_two (by norm_num))).trans
      one_lt_overflowThreshold
  have step : (2 : Rat) ^ (-1074 : Int) = 2 ^ (-1075 : Int) * 2 := zpow_add_one₀ two_ne_zero (-1075)
  have least : (0 : Rat) < 2 ^ (-1075 : Int) := by positivity
  have near := abs_valueAt_position_sub_le (by rwa [abs_of_pos positive])
  have below : q / 2 ^ 53 ≤ 2 ^ (-1075 : Int) := by
    rw [two_zpow_half_least]
    gcongr
  rw [abs_of_pos positive, max_eq_right below] at near
  have zero_iff : position q = 0 ↔ q ≤ 2 ^ (-1075 : Int) := by
    rw [position_eq_zero_iff, abs_of_pos positive]
  rw [step, show (2 : Rat) ^ (-50 : Int) = 1 / 2 ^ 50 by norm_num]
  generalize (2 : Rat) ^ (-1075 : Int) = tiny at *
  rcases (position_nonneg positive.le).eq_or_lt with zero | some
  · have tiny_le := zero_iff.mp zero.symm
    have double : (Binary64.ofRat q).sqrt = (ofPattern false 0).sqrt := by
      have pattern : nearestPattern q.num.natAbs q.den = 0 := by
        rw [← natAbs_position, ← zero, Int.natAbs_zero]
      rw [Binary64.ofRat, ofRatio, pattern, decide_eq_false (not_lt_of_gt (Rat.num_pos.mpr positive))]
    refine ⟨_, 0, floatRoot_of_lt positive inside, ?_, le_rfl, ?_, ?_⟩
    · rw [double]
      decide +kernel
    · exact iff_of_true rfl tiny_le
    · rw [show (0 * 0 - q : Rat) = -q by ring, abs_neg, abs_of_pos positive]
      linarith
  · have above : 0 < valueAt (position q) := by
      rw [← valueAt_zero]
      exact valueAt_strictMono some
    rcases sqrt_near (toRat?_ofRat (by rwa [abs_of_pos positive])) above with
      ⟨p, root, pPositive, square⟩
    refine ⟨_, p, floatRoot_of_lt positive inside, root, pPositive.le, ?_, ?_⟩
    · exact iff_of_false pPositive.ne' (mt zero_iff.mpr some.ne')
    · have chain := abs_sub_le (p * p) (valueAt (position q)) q
      have := (abs_le.mp near).2
      rw [Near] at square
      linarith

/-- The root of a number that is too large for a double is the quotient of the decimal roots of its
parts. -/
theorem floatRoot_of_decimals (large : overflowThreshold ≤ q) {a b : Decimal} {d : Nat} {g : Int}
    (numRoot : Decimal.sqrtTo 20 (.finite false q.num.natAbs 0) = .ok a)
    (denRoot : Decimal.sqrtTo 20 (.finite false q.den 0) = .ok b)
    (divided : a.divTo 20 b = .ok (.finite false d g)) :
    floatRoot q = .ok (ofScientific false d g) := by
  have positive : 0 < q := (one_pos.trans one_lt_overflowThreshold).trans_le large
  have numerator : Decimal.ofInt q.num = .finite false q.num.natAbs 0 := by
    rw [Decimal.ofInt, decide_eq_false (not_lt_of_gt (Rat.num_pos.mpr positive))]
  have denominator : Decimal.ofInt q.den = .finite false q.den 0 := by
    rw [Decimal.ofInt, Int.natAbs_natCast, decide_eq_false (by omega)]
  have outside : ofRat? q = none := by
    rw [ofRat?_eq, if_neg (by rw [abs_of_pos positive]; exact not_lt_of_ge large)]
  have computed : (do
      let root ← Decimal.sqrtTo 20 (.ofInt q.num)
      root.divTo 20 (← Decimal.sqrtTo 20 (.ofInt q.den))) = .ok (.finite false d g) := by
    rw [numerator, denominator, numRoot, denRoot]
    exact divided
  rw [floatRoot, outside]
  dsimp only [wideDigits]
  rw [computed]
  rfl

/-- The denominator of a number that is at least one has no more digits than the numerator. -/
theorem decimalLength_den_le (large : 1 ≤ q) (few : decimalLength q.num.natAbs ≤ 3000000) :
    0 < q.num.natAbs ∧ decimalLength q.den ≤ decimalLength q.num.natAbs := by
  have quotient : (q.num.natAbs / q.den : Rat) = q := by
    rw [abs_num_div_den, abs_of_nonneg (zero_le_one.trans large)]
  have smaller : q.den ≤ q.num.natAbs := by
    rw [← quotient, one_le_div₀ (Nat.cast_pos.mpr q.den_pos)] at large
    exact_mod_cast large
  have numerator : 0 < q.num.natAbs := q.den_pos.trans_le smaller
  refine ⟨numerator, ?_⟩
  rw [decimalLength_le_iff (decimalLength_pos numerator) few]
  exact smaller.trans_lt (lt_ten_pow_decimalLength (log2_le_of_decimalLength_le few))

/-- The root of a number that is too large for a double goes through the roots of its parts to
twenty digits. -/
theorem floatRoot_outside (large : overflowThreshold ≤ q)
    (few : decimalLength q.num.natAbs ≤ 1999990) : ∃ d g,
      floatRoot q = .ok (ofScientific false d g) ∧ 0 < d ∧ d < 10 ^ 20 ∧
        Near (7 / 10 ^ 19) (d * 10 ^ g * (d * 10 ^ g)) q := by
  have one : (1 : Rat) < q := one_lt_overflowThreshold.trans_le large
  have positive : 0 < q := one_pos.trans one
  have quotient : (q.num.natAbs / q.den : Rat) = q := by
    rw [abs_num_div_den, abs_of_pos positive]
  have moderate := few.trans (show 1999990 ≤ 3000000 by norm_num)
  rcases decimalLength_den_le one.le moderate with ⟨numerator, shorter⟩
  have fewer := shorter.trans few
  rcases Decimal.sqrtTo_spec numerator few with ⟨k, u, numRoot, kPositive, kShort, numNear⟩
  rcases Decimal.sqrtTo_spec q.den_pos fewer with ⟨l, v, denRoot, lPositive, lShort, denNear⟩
  have near := numNear.div denNear (by positivity) (Nat.cast_pos.mpr q.den_pos) (by norm_num)
    (by norm_num)
  rw [quotient, ← div_mul_div_comm] at near
  have upper : q ≤ 10 ^ (999995 : Int) * 10 ^ (999995 : Int) := by
    calc q = q.num.natAbs / q.den := quotient.symm
      _ ≤ q.num.natAbs := div_le_self (by positivity) (Nat.one_le_cast.mpr q.den_pos)
      _ ≤ (10 ^ decimalLength q.num.natAbs : Nat) := by
          exact_mod_cast (lt_ten_pow_decimalLength (log2_le_of_decimalLength_le moderate)).le
      _ = 10 ^ (decimalLength q.num.natAbs : Int) := by push_cast; rw [zpow_natCast]
      _ ≤ 10 ^ (999995 + 999995 : Int) := zpow_le_zpow_right₀ (by norm_num) (by omega)
      _ = 10 ^ (999995 : Int) * 10 ^ (999995 : Int) := zpow_add₀ (by norm_num) _ _
  rcases between_of_near_square (by positivity) (near.mono (by norm_num) positive.le) one.le
    (by positivity) upper with ⟨lower, above⟩
  have tenth : (10 : Rat) ^ (-999996 : Int) ≤ 10 ^ (-1 : Int) :=
    zpow_le_zpow_right₀ (by norm_num) (by norm_num)
  have most : (2 * 10 ^ (999995 : Int) : Rat) ≤ 10 ^ (999996 : Int) := by
    calc (2 * 10 ^ (999995 : Int) : Rat) ≤ 10 ^ (999995 : Int) * 10 := by
          rw [mul_comm]
          exact mul_le_mul_of_nonneg_left (by norm_num) (by positivity)
      _ = 10 ^ (999996 : Int) := (zpow_add_one₀ (by norm_num) 999995).symm
  rcases Decimal.divTo_spec kPositive lPositive kShort lShort (by norm_num)
    (tenth.trans (le_trans (by norm_num) lower)) (above.trans most) with
    ⟨d, g, divided, dPositive, dShort, dNear⟩
  refine ⟨d, g, floatRoot_of_decimals large numRoot denRoot divided, dPositive, dShort, ?_⟩
  exact ((dNear.mul dNear (by positivity) (by positivity) (by norm_num)).trans near
    (by norm_num)).mono (by norm_num) positive.le

/-- The root of a number that is too large for a double is accurate unless it is too large
itself. -/
theorem floatRoot_wide (large : overflowThreshold ≤ q) (upper : q ≤ largest * largest)
    (few : decimalLength q.num.natAbs ≤ 1999990) : ∃ x p, floatRoot q = .ok x ∧
      toRat? x = some p ∧ 0 < p ∧ Near (1 / 2 ^ 50) (p * p) q := by
  have one : (1 : Rat) ≤ q := one_lt_overflowThreshold.le.trans large
  have positive : 0 < q := one_pos.trans_le one
  rcases floatRoot_outside large few with ⟨d, g, root, dPositive, dShort, close⟩
  have inside : (d * 10 ^ g : Rat) < overflowThreshold := by
    apply lt_of_mul_self_lt_mul_self₀ (Nat.cast_nonneg _)
    refine close.le.trans_lt ((mul_le_mul_of_nonneg_left upper (by norm_num)).trans_lt ?_)
    have power : (0 : Rat) < 2 ^ (971 : Int) := by positivity
    rw [cast_overflowThreshold, largest]
    generalize (2 : Rat) ^ (971 : Int) = unit at power
    calc (1 + 7 / 10 ^ 19) * ((2 ^ 53 - 1) * unit * ((2 ^ 53 - 1) * unit))
        = (1 + 7 / 10 ^ 19) * (2 ^ 53 - 1) ^ 2 * (unit * unit) := by ring
      _ < (2 ^ 53 - 1 / 2) ^ 2 * (unit * unit) :=
        mul_lt_mul_of_pos_right (by norm_num) (mul_pos power power)
      _ = (2 ^ 53 - 1 / 2) * unit * ((2 ^ 53 - 1 / 2) * unit) := by ring
  have half := (between_of_near_square (by positivity) (close.mono (by norm_num) positive.le)
    one largest_nonneg upper).1
  have normal : (2 : Rat) ^ (-1022 : Int) ≤ d * 10 ^ g := by
    calc (2 : Rat) ^ (-1022 : Int) ≤ 2 ^ (-1 : Int) :=
          zpow_le_zpow_right₀ (by norm_num) (by norm_num)
      _ = 1 / 2 := by norm_num
      _ ≤ d * 10 ^ g := half
  have moderate : d.log2 ≤ mostLength := Decimal.log2_le_of_le dShort.le (by decide)
  have rounded := near_position (by positivity) inside normal
  have some : 0 < valueAt (position (d * 10 ^ g)) :=
    (mul_pos (by norm_num) (by positivity)).trans_le rounded.ge
  refine ⟨_, _, root, toRat?_ofScientific moderate inside, some, ?_⟩
  exact ((rounded.mul rounded (by positivity) some.le (by norm_num)).trans close
    (by norm_num)).mono (by norm_num) positive.le

/-! ## Roots of rationals -/

theorem sqrt_of_rational? {v : Value} (denoted : v.rational? = some q) (positive : 0 < q) :
    v.sqrt = rationalRoot q := by
  have number : v.gaussian? = some (.ofRat q) := by
    cases v with
    | int n => exact congrArg (Option.map Gaussian.ofRat) denoted
    | frac p => exact congrArg (Option.map Gaussian.ofRat) denoted
    | _ => contradiction
  have real : v.isComplex = false := by
    simp [isComplex_of_gaussian? number]
  rw [sqrt, real, if_neg Bool.false_ne_true, realRoot_of_nonneg positive.le number]

/-- The root of a positive rational in the range of doubles is finite.  Its square is near to the
rational if that is a square or not below the least normal double, and is otherwise as near as
the double next to the rational is. -/
theorem sqrt_accuracy {v : Value} (denoted : v.rational? = some q) (positive : 0 < q)
    (upper : q ≤ largest * largest)
    (few : overflowThreshold ≤ q → decimalLength q.num.natAbs ≤ 1999990) :
    ∃ r p, v.sqrt = .ok r ∧ r.standing = .finite p ∧
      (IsSquare q ∨ 2 ^ (-1022 : Int) ≤ q → 0 < p ∧ |p * p - q| ≤ 2 ^ (-50 : Int) * q) ∧
      (¬ IsSquare q → q < 2 ^ (-1022 : Int) → 0 ≤ p ∧ (p = 0 ↔ q ≤ 2 ^ (-1075 : Int)) ∧
        |p * p - q| ≤ 2 ^ (-50 : Int) * q + 2 ^ (-1074 : Int)) := by
  have proportion : (2 : Rat) ^ (-50 : Int) = 1 / 2 ^ 50 := by norm_num
  rw [sqrt_of_rational? denoted positive]
  by_cases square : IsSquare q
  · rcases square with ⟨s, rfl⟩
    have nonzero : s ≠ 0 := left_ne_zero_of_mul positive.ne'
    refine ⟨ofRat |s|, |s|, ?_, standing_ofRat _, fun _ => ⟨abs_pos.mpr nonzero, ?_⟩,
      fun irrational => absurd ⟨s, rfl⟩ irrational⟩
    · rw [← abs_mul_abs_self s, rationalRoot_mul_self (abs_nonneg s)]
    · rw [abs_mul_abs_self, sub_self, abs_zero]
      positivity
  · rw [rationalRoot_of_not_isSquare positive.le square]
    rcases lt_or_ge q (2 ^ (-1022 : Int)) with small | normal
    · rcases floatRoot_subnormal positive small with ⟨x, p, root, value, nonneg, zero, error⟩
      refine ⟨_, p, congrArg _ root, standing_ofFloat value true, fun large => ?_,
        fun _ _ => ⟨nonneg, zero, error⟩⟩
      exact absurd small (not_lt_of_ge (large.resolve_left square))
    · obtain ⟨x, p, root, value, above, near⟩ : ∃ x p, floatRoot q = .ok x ∧
          toRat? x = some p ∧ 0 < p ∧ Near (1 / 2 ^ 50) (p * p) q := by
        rcases lt_or_ge q overflowThreshold with inside | outside
        · exact floatRoot_normal positive inside normal
        · exact floatRoot_wide outside upper (few outside)
      refine ⟨_, p, congrArg _ root, standing_ofFloat value true,
        fun _ => ⟨above, proportion ▸ near⟩, fun _ small => absurd small (not_lt_of_ge normal)⟩

/-- The root of `2 * 10 ^ 400` is accurate. -/
theorem sqrt_accuracy_large :
    (int (2 * 10 ^ 400)).rational? = some (2 * 10 ^ 400) ∧ (0 : Rat) < 2 * 10 ^ 400 ∧
      (2 * 10 ^ 400 : Rat) ≤ largest * largest ∧ overflowThreshold ≤ (2 * 10 ^ 400 : Rat) ∧
      decimalLength (2 * 10 ^ 400 : Rat).num.natAbs ≤ 1999990 ∧
      ∃ r p, (int (2 * 10 ^ 400)).sqrt = .ok r ∧ r.standing = .finite p ∧ 0 < p ∧
        |p * p - 2 * 10 ^ 400| ≤ 2 ^ (-50 : Int) * (2 * 10 ^ 400) := by
  have number : (int (2 * 10 ^ 400)).rational? = some (2 * 10 ^ 400) := by decide +kernel
  have upper : (2 * 10 ^ 400 : Rat) ≤ largest * largest := by decide +kernel
  have outside : overflowThreshold ≤ (2 * 10 ^ 400 : Rat) := by decide +kernel
  have few : decimalLength (2 * 10 ^ 400 : Rat).num.natAbs ≤ 1999990 := by decide +kernel
  have normal : (2 : Rat) ^ (-1022 : Int) ≤ 2 * 10 ^ 400 := by decide +kernel
  rcases sqrt_accuracy number (by positivity) upper (fun _ => few) with
    ⟨r, p, root, value, accurate, -⟩
  exact ⟨number, by positivity, upper, outside, few, r, p, root, value, accurate (.inr normal)⟩

/-- The root of `2 / 10 ^ 400` is the normal number `√2 / 10 ^ 200`, and zero is returned. -/
theorem sqrt_underflow :
    (2 ^ (-1022 : Int) * 2 ^ (-1022 : Int) : Rat) ≤ 2 / 10 ^ 400 ∧
      (frac (2 / 10 ^ 400)).sqrt = .ok (int 0) := by
  exact ⟨by decide +kernel, toOption_eq_some_iff.mp (by decide +kernel)⟩

end Value

end ExactRoots
