import ExactRoots.Proofs.Binary64.IntegerLogarithm
import ExactRoots.Proofs.Value.Exact
import ExactRoots.Proofs.Value.Inexact
import ExactRoots.Value.Rounding

/-!
# Rounding to significant figures

The places that a rational is rounded to come from the common logarithm of its size.  Below the
threshold of doubles the logarithm tells the number of digits, so the error is at most half a unit
of the last figure.  Larger fractions have no logarithm, and that of larger integers may be above a
power of ten that the integer does not reach.
-/

namespace ExactRoots

open Outcome Binary64

namespace Value

variable {v : Value} {q w : Rat} {y : Float} {figures : Int}

theorem ceiling_of_toRat? (value : toRat? y = some w) : ceiling y = .ok w.ceil := by
  rcases Option.map_eq_some_iff.mp value with ⟨d, form, rfl⟩
  rw [ceiling, form]

theorem ne_zero_of_large (large : overflowThreshold ≤ |q|) : q ≠ 0 := by
  rintro rfl
  rw [abs_zero] at large
  exact not_lt_of_ge large (one_pos.trans one_lt_overflowThreshold)

theorem logSize_frac (q : Rat) : logSize (.frac q) = (Value.frac q).toFloat >>= fun x =>
    if x == 0.0 then .error .malformed else .ok (log10 x.abs) := rfl

/-- The logarithm of a rational that is not too large for a double is that of the double nearest
to its size. -/
theorem logSize_ofRat (small : |q| < overflowThreshold) (large : 1 ≤ |q|) :
    ∃ y, toRat? y = some (valueAt (position |q|)) ∧
      logSize (ofRat q) = .ok (log10 y) := by
  have nonzero : q ≠ 0 := abs_pos.mp (one_pos.trans_le large)
  have whole := toFloat_ofRat q
  rw [if_pos small] at whole
  by_cases integral : q.den = 1
  · have size : |q| = (q.num.natAbs : ℤ) := by
      rw [← abs_num_div_den, integral, Nat.cast_one, div_one, Int.cast_natCast]
    have value : toRat? (Binary64.ofInt q.num.natAbs) =
        some (valueAt (position |q|)) := by
      rw [ofInt_eq, ← size, toRat?_ofRat (by rwa [abs_abs])]
    refine ⟨_, value, ?_⟩
    rw [ofRat, if_pos integral, logSize, if_neg (Rat.num_ne_zero.mpr nonzero),
      log10Nat_of_toRat? value]
  · have value : toRat? (Binary64.ofRat q).abs =
        some (valueAt (position |q|)) := by
      rw [toRat?_abs (toRat?_ofRat small), abs_valueAt_position]
    have checked : ¬ (Binary64.ofRat q == 0.0) = true := by
      rw [ofRat_beq_zero_iff, not_le]
      exact (zpow_lt_one_of_neg₀ one_lt_two (by decide)).trans_le large
    refine ⟨_, value, ?_⟩
    rw [ofRat, if_neg integral] at whole ⊢
    rw [logSize_frac, whole, ok_bind, if_neg checked]

/-- A fraction that is too large for a double has no logarithm. -/
theorem logSize_ofRat_of_large (large : overflowThreshold ≤ |q|) (fraction : q.den ≠ 1) :
    logSize (ofRat q) = .error .overflow := by
  have whole := toFloat_ofRat q
  rw [if_neg (not_lt_of_ge large)] at whole
  rw [ofRat, if_neg fraction] at whole ⊢
  rw [logSize_frac, whole, error_bind]

/-- The logarithm of an integer that is too large for a double. -/
theorem logSize_ofRat_of_integer (large : overflowThreshold ≤ |q|) (integral : q.den = 1) :
    logSize (ofRat q) = .ok (log10Nat q.num.natAbs) := by
  rw [ofRat, if_pos integral, logSize, if_neg (Rat.num_ne_zero.mpr (ne_zero_of_large large))]

/-- A rational that is rounded to decimals is off by half a unit of the last one. -/
theorem roundReal_ofRat (q : Rat) (places : Int) : ∃ w r, roundReal places (ofRat q) = .ok w ∧
    w.rational? = some r ∧ |r - q| ≤ 10 ^ (-places) / 2 := by
  have near := abs_roundRationalTo_sub_le q places
  by_cases integral : q.den = 1
  · have number : (q.num : Rat) = q := Rat.coe_int_num_of_den_eq_one integral
    rw [ofRat, if_pos integral, roundReal, number]
    refine ⟨_, _, rfl, rfl, ?_⟩
    split
    next =>
      rw [number, sub_self, abs_zero]
      positivity
    next negative =>
      have whole : ((roundRationalTo q places).num : Rat) = roundRationalTo q places := by
        rw [roundRationalTo, if_neg (by omega), Rat.num_intCast]
      rwa [whole]
  · rw [ofRat, if_neg integral]
    exact ⟨_, _, rfl, rfl, near⟩

theorem gaussian?_of_rational? (number : v.rational? = some q) :
    v.gaussian? = some (.ofRat q) := by
  cases v with
  | int n =>
    obtain rfl := Option.some.inj number
    rfl
  | frac p =>
    obtain rfl := Option.some.inj number
    rfl
  | exact | decimal | inexact | formal | text | absent => contradiction

theorem significant_of_rational? (number : v.rational? = some q)
    (positive : 1 ≤ figures) : significant figures v = figuresReal figures (ofRat q) := by
  have denoted := gaussian?_of_rational? number
  have real : v.isComplex = false := by
    rw [isComplex_of_gaussian? denoted]
    simp
  have tidied : v.tidy = ofRat q := by
    rw [tidy, simplify_of_gaussian? false denoted, ofGaussian_ofRat]
  rw [significant, if_neg (by omega), real, tidied]
  rfl

/-- Rounding to figures is rounding to the places that the logarithm tells, or to zero when these
are too many. -/
theorem figuresReal_ofRat (nonzero : q ≠ 0) : figuresReal figures (ofRat q) =
    logSize (ofRat q) >>= ceiling >>= fun c =>
      if mostPlaces < figures - c then .ok (.float 0.0) else roundReal (figures - c) (ofRat q) := by
  have number : (ofRat q).isNumber = true := by
    unfold ofRat
    split <;> rfl
  have checked : (q == 0) = false := beq_eq_false_iff_ne.mpr nonzero
  rw [figuresReal, isZero_ofRat, checked, ok_bind, number, bind_assoc]
  rfl

/-- Whether rounding to figures gives a rational that is off by at most `bound`. -/
def RoundsWithin (figures : Int) (v : Value) (q : Rat) (bound : ℝ) : Prop :=
  ∃ w r, significant figures v = .ok w ∧ w.rational? = some r ∧ |(r : ℝ) - q| ≤ bound

theorem RoundsWithin.mono {bound bound' : ℝ} (rounds : RoundsWithin figures v q bound)
    (le : bound ≤ bound') : RoundsWithin figures v q bound' := by
  rcases rounds with ⟨w, r, rounded, value, near⟩
  exact ⟨w, r, rounded, value, near.trans le⟩

/-- How rounding to figures depends on the least integer `c` that is at least the logarithm. -/
structure Rounding (figures : Int) (v : Value) (q : Rat) (c : Int) : Prop where
  dropped : mostPlaces < figures - c → significant figures v = .ok (.float 0.0)
  rounded : figures - c ≤ mostPlaces → RoundsWithin figures v q (1 / 2 * 10 ^ (c - figures))

theorem rounding_of_logSize (number : v.rational? = some q) (nonzero : q ≠ 0)
    (positive : 1 ≤ figures) (logarithm : logSize (ofRat q) = .ok y)
    (value : toRat? y = some w) : Rounding figures v q w.ceil := by
  have computed := significant_of_rational? number positive
  rw [figuresReal_ofRat nonzero, logarithm, ok_bind, ceiling_of_toRat? value, ok_bind] at computed
  constructor
  · intro many
    rw [computed, if_pos many]
  · intro few
    rw [if_neg (not_lt_of_ge few)] at computed
    rcases roundReal_ofRat q (figures - w.ceil) with ⟨u, r, rounded, number, near⟩
    refine ⟨u, r, computed.trans rounded, number, ?_⟩
    rw [neg_sub] at near
    have real : ((|r - q| : ℚ) : ℝ) ≤ ((10 ^ (w.ceil - figures) / 2 : ℚ) : ℝ) :=
      Rat.cast_le.mpr near
    push_cast at real
    linarith

/-- The error in terms of the size, for a number with enough digits. -/
theorem Rounding.within {c : Int} (rounding : Rounding figures v q c)
    (few : figures - c ≤ mostPlaces) {size : ℝ} (reached : (10 : ℝ) ^ (c - 1) ≤ size) :
    RoundsWithin figures v q (1 / 2 * 10 ^ (1 - figures) * size) := by
  apply (rounding.rounded few).mono
  have split : (10 : ℝ) ^ (c - figures) = 10 ^ (1 - figures) * 10 ^ (c - 1) := by
    rw [← zpow_add₀ (by norm_num)]
    congr 1
    omega
  rw [split, ← mul_assoc]
  exact mul_le_mul_of_nonneg_left reached (by positivity)

/-- For a number of `k + 1` digits that is not too large for a double, the logarithm tells `k` or
`k + 1` digits. -/
theorem exists_rounding (number : v.rational? = some q) (positive : 1 ≤ figures)
    (small : |q| < overflowThreshold) {k : Nat} (lower : 10 ^ k ≤ |q|)
    (upper : |q| < 10 ^ (k + 1)) : ∃ c : Int, k ≤ c ∧ c ≤ k + 1 ∧ Rounding figures v q c := by
  have large : 1 ≤ |q| := (one_le_pow₀ (by norm_num)).trans lower
  have some : 0 < |q| := one_pos.trans_le large
  rcases logSize_ofRat small large with ⟨y, value, logarithm⟩
  have near : Near (1 / 2 ^ 53) _ |q| := near_position some small
    ((zpow_lt_one_of_neg₀ one_lt_two (by decide)).le.trans large)
  have least : 1 ≤ valueAt (position |q|) := by
    rw [← valueAt_position_of_toRat? toRat?_one]
    exact valueAt_strictMono.monotone (position_mono large)
  have moderate : k < 309 := by
    by_contra long
    have threshold : (overflowThreshold : Rat) ≤ (10 ^ 309 : Nat) :=
      Nat.cast_le.mpr (by decide +kernel)
    rw [Nat.cast_pow, Nat.cast_ofNat] at threshold
    have longer : (10 : Rat) ^ 309 ≤ 10 ^ k := pow_le_pow_right₀ (by norm_num) (Nat.not_lt.mp long)
    exact not_lt_of_ge ((threshold.trans longer).trans lower) small
  rcases ceil_log10 value near least lower upper.le moderate with ⟨w, told, above, below⟩
  exact ⟨w.ceil, above, below, rounding_of_logSize number (abs_pos.mp some) positive logarithm told⟩

/-- The logarithm of an integer that is too large for a double tells its size in proportion. -/
theorem exists_rounding_of_integer (number : v.rational? = some q) (positive : 1 ≤ figures)
    (large : overflowThreshold ≤ |q|) (integral : q.den = 1)
    (short : q.num.natAbs.log2 + 2 < overflowThreshold) :
    ∃ c : Int, (1 - 1 / 2 ^ 50) * Real.logb 10 |(q : ℝ)| ≤ c ∧
      c < (1 + 1 / 2 ^ 50) * Real.logb 10 |(q : ℝ)| + 1 ∧ Rounding figures v q c := by
  have size : |q| = q.num.natAbs := by
    rw [← abs_num_div_den, integral, Nat.cast_one, div_one]
  have nonzero := ne_zero_of_large large
  rw [size] at large
  rcases log10Nat_near (Nat.cast_le.mp large) short with ⟨w, value, near⟩
  have real : |(q : ℝ)| = q.num.natAbs := by exact_mod_cast congrArg (Rat.cast : ℚ → ℝ) size
  rw [← real, abs_le] at near
  have below : (w : ℝ) ≤ w.ceil := by exact_mod_cast Rat.le_ceil
  have above : (w.ceil : ℝ) < w + 1 := by exact_mod_cast Rat.ceil_lt
  refine ⟨w.ceil, by linarith, by linarith, ?_⟩
  exact rounding_of_logSize number nonzero positive
    (logSize_ofRat_of_integer (by rwa [size]) integral) value

/-- A power of ten beside a power of a number, from the logarithms. -/
theorem ten_zpow_le {a e : ℝ} {c : Int} (positive : 0 < a)
    (below : (c : ℝ) - 1 ≤ e * Real.logb 10 a) : (10 : ℝ) ^ (c - 1) ≤ a ^ e := by
  have ten : (10 : ℝ) ^ (Real.logb 10 a) = a :=
    Real.rpow_logb (by norm_num) (by norm_num) positive
  calc (10 : ℝ) ^ (c - 1) = 10 ^ ((c : ℝ) - 1) := by
        rw [← Real.rpow_intCast]
        push_cast
        rfl
    _ ≤ 10 ^ (Real.logb 10 a * e) := Real.rpow_le_rpow_of_exponent_le (by norm_num) (by linarith)
    _ = a ^ e := by rw [Real.rpow_mul (by norm_num), ten]

/-- What rounding a rational to figures gives.  For a number of `k + 1` digits that is not too large
for a double the error is at most half a unit of the last figure, and it is only rounded to zero
when more figures than places are asked for.  A fraction that is too large for a double cannot be
rounded, and for larger integers the digits are told with an error in proportion. -/
theorem significant_accuracy (number : v.rational? = some q) (atLeastOne : 1 ≤ |q|)
    (positive : 1 ≤ figures) :
    (|q| < overflowThreshold → ∀ k : Nat, 10 ^ k ≤ |q| → |q| < 10 ^ (k + 1) →
      (figures ≤ mostPlaces + k →
        RoundsWithin figures v q (1 / 2 * 10 ^ (1 - figures) * |(q : ℝ)|)) ∧
      (figures = mostPlaces + k + 1 →
        RoundsWithin figures v q (1 / 2 * 10 ^ (1 - figures) * |(q : ℝ)|) ∨
          significant figures v = .ok (.float 0.0)) ∧
      (mostPlaces + k + 1 < figures → significant figures v = .ok (.float 0.0))) ∧
    (overflowThreshold ≤ |q| → q.den ≠ 1 → significant figures v = .error .overflow) ∧
    (overflowThreshold ≤ |q| → q.den = 1 → q.num.natAbs.log2 + 2 < overflowThreshold →
      ∃ c : Int, (1 - 1 / 2 ^ 50) * Real.logb 10 |(q : ℝ)| ≤ c ∧
        c < (1 + 1 / 2 ^ 50) * Real.logb 10 |(q : ℝ)| + 1 ∧
        (mostPlaces < figures - c → significant figures v = .ok (.float 0.0)) ∧
        (figures - c ≤ mostPlaces →
          RoundsWithin figures v q
            (1 / 2 * 10 ^ (1 - figures) * |(q : ℝ)| ^ (1 + 1 / 2 ^ 50 : ℝ)) ∧
          ((10 : ℝ) ^ (c - 1) ≤ |(q : ℝ)| →
            RoundsWithin figures v q (1 / 2 * 10 ^ (1 - figures) * |(q : ℝ)|)))) := by
  have nonzero : q ≠ 0 := abs_pos.mp (one_pos.trans_le atLeastOne)
  refine ⟨fun small k lower upper => ?small, fun large fraction => ?fraction,
    fun large integral short => ?integer⟩
  case small =>
    rcases exists_rounding number positive small lower upper with ⟨c, above, below, rounding⟩
    have reached : (10 : ℝ) ^ (c - 1) ≤ |(q : ℝ)| := by
      have digits : (10 : ℝ) ^ (c - 1) ≤ 10 ^ (k : ℤ) :=
        zpow_le_zpow_right₀ (by norm_num) (by omega)
      rw [zpow_natCast] at digits
      exact digits.trans (by exact_mod_cast lower)
    refine ⟨fun few => ?_, fun edge => ?_, fun many => rounding.dropped (by omega)⟩
    · exact rounding.within (by omega) reached
    · rcases lt_or_ge mostPlaces (figures - c) with many | few
      · exact .inr (rounding.dropped many)
      · exact .inl (rounding.within few reached)
  case fraction =>
    rw [significant_of_rational? number positive, figuresReal_ofRat nonzero,
      logSize_ofRat_of_large large fraction, error_bind, error_bind]
  case integer =>
    rcases exists_rounding_of_integer number positive large integral short with
      ⟨c, below, above, rounding⟩
    refine ⟨c, below, above, rounding.dropped, fun few => ⟨rounding.within few ?_,
      rounding.within few⟩⟩
    exact ten_zpow_le (abs_pos.mpr (Rat.cast_ne_zero.mpr nonzero)) (by linarith)

/-- Two figures of `200 / 3`. -/
theorem significant_accuracy_two_thirds :
    (Value.frac (200 / 3)).rational? = some (200 / 3) ∧ (1 : Rat) ≤ |200 / 3| ∧ (1 : Int) ≤ 2 ∧
      RoundsWithin 2 (.frac (200 / 3)) (200 / 3)
        (1 / 2 * 10 ^ (1 - 2 : Int) * |((200 / 3 : Rat) : ℝ)|) := by
  have size : |(200 / 3 : Rat)| = 200 / 3 := abs_of_pos (by norm_num)
  have small : |(200 / 3 : Rat)| < overflowThreshold := by
    rw [size]
    exact (by norm_num : (200 / 3 : Rat) < (2 ^ 7 : Nat)).trans
      (Nat.cast_lt.mpr (two_pow_lt_overflowThreshold (by decide)))
  have large : (1 : Rat) ≤ |200 / 3| := by norm_num [size]
  have accuracy := @significant_accuracy (.frac (200 / 3)) _ 2 rfl large (by decide)
  exact ⟨rfl, large, by decide, (accuracy.1 small 1 (by norm_num [size])
    (by norm_num [size])).1 (by decide)⟩

/-- A fraction that is too large for a double cannot be rounded, many figures of one are rounded to
zero, and a large integer just below a power of ten loses a figure. -/
theorem significant_inaccuracy :
    significant 2 (.frac (10 ^ 400 / 3)) = .error .overflow ∧
      significant 309 (.int 1) = .ok (.float 0.0) ∧
      significant 16 (.int (10 ^ 443 - 5 * 10 ^ 427)) = .ok (.int (10 ^ 443)) ∧
      (1 / 2 * 10 ^ (1 - 16 : Int) * (10 ^ 443 - 5 * 10 ^ 427) : Rat) <
        10 ^ 443 - (10 ^ 443 - 5 * 10 ^ 427) := by
  refine ⟨fault?_eq_some_iff.mp (by decide +kernel), toOption_eq_some_iff.mp (by decide +kernel),
    toOption_eq_some_iff.mp (by decide +kernel), by decide +kernel⟩

end Value

end ExactRoots
