import ExactRoots.Proofs.Value.Approximation
import ExactRoots.Proofs.Value.RealRoot

/-!
# Recovering the parts of complex numbers

Each part of a floating complex number is converted by itself.  If both parts are near to
fractions of bounded denominators the result is exact, and if neither is, the number stays as
it is.  If only one is, the other part stays as it is and the one is replaced by the double
nearest to its fraction, so it may change.
-/

namespace ExactRoots

open Outcome

namespace Binary64

/-- No finite double is larger than the largest one. -/
theorem abs_le_largestNat {x : Float} {q : Rat} (value : toRat? x = some q) : |q| ≤ largestNat := by
  rcases Option.map_eq_some_iff.mp value with ⟨d, form, rfl⟩
  rcases ratio_le_largestNat form with ⟨bounded, positive⟩
  have size : |d.toRat| = d.ratio.1 / d.ratio.2 := by
    rw [Dyadic.toRat]
    dsimp only
    rw [Rat.mkRat_eq_div, abs_div, Nat.abs_cast]
    split <;> simp
  rw [size, div_le_iff₀ (Nat.cast_pos.mpr positive)]
  exact_mod_cast bounded.trans (Nat.le_mul_of_pos_right _ positive)

end Binary64

namespace Value

/-- Whether a fraction can take the place of a number: its denominator is within the bound, and it
is within one unit of the place. -/
def Replaces (bound places : Nat) (q r : Rat) : Prop := r.den ≤ bound ∧ |r - q| ≤ 1 / 10 ^ places

/-- Whether some fraction can take the place of a number. -/
def Recoverable (bound places : Nat) (q : Rat) : Prop := ∃ r, Replaces bound places q r

variable {bound places : Nat} {q r : Rat} {x y re im : Float}

/-- What takes the place of a double is not too large for one. -/
theorem Replaces.abs_lt (replaces : Replaces bound places q r) (value : Binary64.toRat? x = some q) :
    |r| < Binary64.overflowThreshold := by
  have unit : (1 : Rat) / 10 ^ places ≤ 1 :=
    div_le_one_of_le₀ (one_le_pow₀ (by norm_num)) (by positivity)
  have room : ((Binary64.largestNat + 1 : Nat) : Rat) < Binary64.overflowThreshold :=
    Nat.cast_lt.mpr (by decide +kernel)
  calc |r| ≤ |r - q| + |q| := by simpa using abs_add_le (r - q) q
    _ ≤ 1 + Binary64.largestNat := add_le_add (replaces.2.trans unit) (Binary64.abs_le_largestNat value)
    _ = (Binary64.largestNat + 1 : Nat) := by push_cast; ring
    _ < Binary64.overflowThreshold := room

/-- A double is replaced by a fraction if some fraction can take its place; otherwise it stays as
it is, and is no integer. -/
theorem recoverReal_spec (positive : 1 ≤ bound) (value : Binary64.toRat? x = some q) :
    (Recoverable bound places q →
      ∃ r, Replaces bound places q r ∧ recoverReal bound places (.float x) = .ok (ofRat r)) ∧
    (¬ Recoverable bound places q →
      recoverReal bound places (.float x) = .ok (.float x) ∧ Binary64.toInt? x = none) := by
  have located : approximated? (.float x) = .ok (some q) := congrArg Except.ok value
  rcases @recoverReal_of_approximated bound places _ _ positive rfl located with
    ⟨r, small, near, recovered⟩ | ⟨far, stays⟩
  · refine ⟨fun _ => ⟨r, ⟨small, near⟩, recovered⟩, fun none => ?_⟩
    exact absurd ⟨r, small, near⟩ none
  · constructor
    · rintro ⟨r, small, near⟩
      exact absurd near (not_le.mpr (far r small))
    · refine fun none => ⟨stays, ?_⟩
      rw [Option.eq_none_iff_forall_ne_some]
      intro n whole
      -- an integer can take its own place
      rw [Binary64.toInt?_eq_some_iff, value, Option.some.injEq] at whole
      exact none ⟨n, positive, by rw [whole, sub_self, abs_zero]; positivity⟩

/-! ## Parts that are put together -/

/-- A double that is no integer stays beside a double or a fraction. -/
theorem makeComplex_rough (rough : Binary64.toInt? y = none) (left : RealForm v)
    (converted : v.toFloat = .ok x) : makeComplex v (.float y) = .ok (.complex x y) := by
  have nonzero : (Value.float y).isZero = .ok false := by
    rw [isZero_float, beq_zero_of_rough rough]
  rw [makeComplex_of_normal left.normal (RealForm.double rough).normal nonzero, converted]
  split
  next => contradiction
  next => rfl

/-- A double that is no integer keeps its place before a fraction, which is left out if it is
zero. -/
theorem makeComplex_rough_ofRat (rough : Binary64.toInt? x = none)
    (small : |r| < Binary64.overflowThreshold) : makeComplex (.float x) (ofRat r) =
      .ok (if r = 0 then .float x else .complex x (Binary64.ofRat r)) := by
  have normal : (Value.float x).Normal := (RealForm.double rough).normal
  split
  next zero =>
    rw [makeComplex, normal_ofRat, isZero_ofRat, zero, normal]
    rfl
  next nonzero =>
    have checked : (ofRat r).isZero = .ok false := by simpa [isZero_ofRat] using nonzero
    rw [makeComplex_of_normal normal (normal_ofRat r) checked, toFloat_ofRat, if_pos small]
    rfl

/-! ## Complex numbers -/

/-- The cases of a value with an imaginary part that is not zero. -/
theorem nonreal_of_amount? {v : Value} {u : Gaussian} (finite : v.amount? = some u)
    (nonreal : u.im ≠ 0) : v = .exact u.re u.im nonreal ∨
      ∃ re im, v = .complex re im ∧ Binary64.toRat? re = some u.re ∧
        Binary64.toRat? im = some u.im := by
  cases v with
  | exact re im nonzero =>
    obtain rfl := Option.some.inj finite
    exact .inl rfl
  | decimal d =>
    rcases Option.map_eq_some_iff.mp finite with ⟨q, -, rfl⟩
    exact absurd rfl nonreal
  | inexact x =>
    obtain x | ⟨re, im⟩ := x
    · rcases Option.map_eq_some_iff.mp finite with ⟨q, -, rfl⟩
      exact absurd rfl nonreal
    · rcases Option.bind_eq_some_iff.mp finite with ⟨p, reValue, rest⟩
      rcases Option.map_eq_some_iff.mp rest with ⟨q, imValue, rfl⟩
      exact .inr ⟨re, im, rfl, reValue, imValue⟩
  | int n =>
    obtain rfl := Option.some.inj finite
    exact absurd rfl nonreal
  | frac q =>
    obtain rfl := Option.some.inj finite
    exact absurd rfl nonreal
  | formal | text | absent => contradiction

/-- An exact complex number stays as it is. -/
theorem recover_exact (u : Gaussian) (nonreal : u.im ≠ 0) :
    recover bound places (.exact u.re u.im nonreal) = .ok (.exact u.re u.im nonreal) := by
  have same : Value.exact u.re u.im nonreal = ofGaussian u := by rw [ofGaussian, dif_neg nonreal]
  rw [same, recover_ofGaussian]

section Complex

variable (imValue : Binary64.toRat? im = some q) (nonreal : q ≠ 0)

include imValue nonreal

theorem tidy_complex : (Value.complex re im).tidy = .complex re im := by
  have nonzero : ¬ (im == 0.0) = true := by
    rw [Binary64.beq_zero_iff_toRat?, imValue]
    simpa using nonreal
  rw [tidy, simplify, if_neg nonzero]

/-- The parts are converted each by itself. -/
theorem recover_complex {v w : Value} (left : recoverReal bound places (.float re) = .ok v)
    (right : recoverReal bound places (.float im) = .ok w) :
    recover bound places (.complex re im) = makeComplex v w := by
  have tidied : (Value.complex re im).tidy = .complex re im := tidy_complex imValue nonreal
  have complex : (Value.complex re im).isComplex = true := by rw [isComplex, tidied]
  rw [recover, complex, if_pos rfl, realPart, imagPart, tidied]
  simp only [left, right, ok_bind]

end Complex

/-- An exact complex number stays as it is.  The parts of a floating one are converted each by
itself: two parts that are replaced make an exact number, and a part that is not replaced stays as
it is, beside the double nearest to what replaces the other part, or alone where the imaginary part
is replaced by zero. -/
theorem recover_parts {v : Value} {u : Gaussian} (positive : 1 ≤ bound)
    (finite : v.amount? = some u) (nonreal : u.im ≠ 0) :
    (v.isExact = true → recover bound places v = .ok v) ∧
      ∀ re im, v = .complex re im →
        (Recoverable bound places u.re → Recoverable bound places u.im →
          ∃ r s, Replaces bound places u.re r ∧ Replaces bound places u.im s ∧
            recover bound places v = .ok (ofGaussian ⟨r, s⟩)) ∧
        (¬ Recoverable bound places u.re → ¬ Recoverable bound places u.im →
          recover bound places v = .ok v) ∧
        (Recoverable bound places u.re → ¬ Recoverable bound places u.im →
          ∃ r, Replaces bound places u.re r ∧
            recover bound places v = .ok (.complex (Binary64.ofRat r) im)) ∧
        (¬ Recoverable bound places u.re → Recoverable bound places u.im →
          ∃ s, Replaces bound places u.im s ∧ recover bound places v =
            .ok (if s = 0 then .float re else .complex re (Binary64.ofRat s))) := by
  rcases nonreal_of_amount? finite nonreal with rfl | ⟨re, im, rfl, reValue, imValue⟩
  · exact ⟨fun _ => recover_exact u nonreal, fun re im form => nomatch form⟩
  refine ⟨fun exact_ => ?_, fun a b form => ?_⟩
  · rw [isExact, tidy_complex imValue nonreal] at exact_
    contradiction
  obtain ⟨rfl, rfl⟩ : re = a ∧ im = b := by simpa using form
  rcases @recoverReal_spec bound places _ _ positive reValue with ⟨reReplaced, reStays⟩
  rcases @recoverReal_spec bound places _ _ positive imValue with ⟨imReplaced, imStays⟩
  refine ⟨fun left right => ?bothReplaced, fun left right => ?noneReplaced,
    fun left right => ?reReplaced, fun left right => ?imReplaced⟩
  case bothReplaced =>
    rcases reReplaced left with ⟨r, replaces, recovered⟩
    rcases imReplaced right with ⟨s, replaces', recovered'⟩
    refine ⟨r, s, replaces, replaces', ?_⟩
    rw [recover_complex imValue nonreal recovered recovered']
    exact makeComplex_of_gaussian? (gaussian?_ofRat r) (gaussian?_ofRat s)
  case noneReplaced =>
    rcases reStays left with ⟨stays, rough⟩
    rcases imStays right with ⟨stays', rough'⟩
    rw [recover_complex imValue nonreal stays stays']
    exact makeComplex_rough rough' (.double rough) rfl
  case reReplaced =>
    rcases reReplaced left with ⟨r, replaces, recovered⟩
    rcases imStays right with ⟨stays, rough⟩
    refine ⟨r, replaces, ?_⟩
    rw [recover_complex imValue nonreal recovered stays]
    refine makeComplex_rough rough (.rational r) ?_
    rw [toFloat_ofRat, if_pos (replaces.abs_lt reValue)]
  case imReplaced =>
    rcases reStays left with ⟨stays, rough⟩
    rcases imReplaced right with ⟨s, replaces, recovered⟩
    refine ⟨s, replaces, ?_⟩
    rw [recover_complex imValue nonreal stays recovered]
    exact makeComplex_rough_ofRat rough (replaces.abs_lt imValue)

/-- The real part of `0.3333333333333 + 3.141592653589793 i` is near to one third, and no simple
fraction is near to its imaginary part. -/
theorem recover_parts_third :
    1 ≤ 100000 ∧
      (Value.complex 0.3333333333333 3.141592653589793).amount? =
        some ⟨6004799503160061 / 2 ^ 54, 884279719003555 / 2 ^ 48⟩ ∧
      (884279719003555 / 2 ^ 48 : Rat) ≠ 0 ∧
      ∃ r : Rat, Replaces 100000 12 (6004799503160061 / 2 ^ 54) r ∧
        recover 100000 12 (.complex 0.3333333333333 3.141592653589793) =
          .ok (.complex (Binary64.ofRat r) 3.141592653589793) := by
  have measured : (Value.complex 0.3333333333333 3.141592653589793).amount? =
      some ⟨6004799503160061 / 2 ^ 54, 884279719003555 / 2 ^ 48⟩ := by decide +kernel
  have nonreal : (884279719003555 / 2 ^ 48 : Rat) ≠ 0 := by norm_num
  have third : Recoverable 100000 12 (6004799503160061 / 2 ^ 54) := by
    refine ⟨1 / 3, by decide +kernel, ?_⟩
    rw [← rat_abs_eq]
    decide +kernel
  have irrational : ¬ Recoverable 100000 12 (884279719003555 / 2 ^ 48) := by
    intro near
    have value : Binary64.toRat? 3.141592653589793 = some (884279719003555 / 2 ^ 48) := by
      decide +kernel
    have stays : recoverReal 100000 12 (.float 3.141592653589793) =
        .ok (.float 3.141592653589793) := toOption_eq_some_iff.mp (by decide +kernel)
    rcases (@recoverReal_spec 100000 12 _ _ (by decide) value).1 near with ⟨r, -, replaced⟩
    have same := congrArg rational? (Except.ok.inj (replaced.symm.trans stays))
    rw [rational?_ofRat] at same
    contradiction
  exact ⟨by decide, measured, nonreal,
    ((@recover_parts 100000 12 _ _ (by decide) measured nonreal).2 _ _ rfl).2.2.1 third irrational⟩

/-- The real part of `0.3333333333333 + 3.141592653589793 i` is changed, and the result is not
exact. -/
theorem recover_changes_part :
    recover 100000 12 (.complex 0.3333333333333 3.141592653589793) =
        .ok (.complex (Binary64.ofRat (1 / 3)) 3.141592653589793) ∧
      (Value.complex (Binary64.ofRat (1 / 3)) 3.141592653589793).isExact = false ∧
      (Value.complex (Binary64.ofRat (1 / 3)) 3.141592653589793).amount? ≠
        (Value.complex 0.3333333333333 3.141592653589793).amount? := by
  refine ⟨toOption_eq_some_iff.mp (by decide +kernel), by decide +kernel, by decide +kernel⟩

end Value

end ExactRoots
