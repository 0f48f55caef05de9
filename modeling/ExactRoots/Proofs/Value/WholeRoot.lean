import ExactRoots.Proofs.Binary64.Sign
import ExactRoots.Proofs.Value.SquareRoot

/-!
# Whole roots

A double that is an integer is returned as one, so the root of a number that is
not a square may come back as an exact value.  It does so only if a double that is
computed on the way is an integer, and then it is not a root.
-/

namespace ExactRoots

/-- Whether the root of a rational is irrational and computed as the given double. -/
def RoundsTo (q : Rat) (x : Float) : Prop := ¬ IsSquare q ∧ Value.floatRoot q = .ok x

/-- A double below zero with its sign changed, and any other double as it is. -/
def unsigned (x : Float) : Float := if x < 0.0 then -x else x

namespace Gaussian

/-- The halves of the half-angle formula that are computed from an irrational size, when its
double is not an integer. -/
def IsFloatHalf (u : Gaussian) (h : Float) : Prop :=
  ∃ size re, RoundsTo u.normSq size ∧ Binary64.toInt? size = none ∧
    Binary64.ofRat? u.re = some re ∧ (h = (re + size) / 2.0 ∨ h = (size - re) / 2.0)

/-- The doubles that are computed on the way to a square root, up to the first one that is an
integer. -/
inductive Meets (u : Gaussian) : Float → Prop
  -- the root of a real number
  | real {x : Float} (axis : u.im = 0) (root : RoundsTo |u.re| x) : Meets u x
  -- the size of a complex number
  | size {x : Float} (nonreal : u.im ≠ 0) (root : RoundsTo u.normSq x) : Meets u x
  -- the root of a half, where the size is rational
  | part {size half : Rat} {x : Float} (nonreal : u.im ≠ 0) (nonneg : 0 ≤ size)
      (square : u.normSq = size * size)
      (halves : half = (u.re + size) / 2 ∨ half = (size - u.re) / 2)
      (root : RoundsTo half x) : Meets u x
  -- a half of a size that is a double, and its root
  | half {h : Float} (nonreal : u.im ≠ 0) (halves : u.IsFloatHalf h) : Meets u h
  | halfRoot {h : Float} (nonreal : u.im ≠ 0) (halves : u.IsFloatHalf h)
      (rough : Binary64.toInt? h = none) : Meets u (unsigned h).sqrt

/-- No double is computed on the way to the root of a square. -/
theorem not_meets_of_isSquare {u : Gaussian} (square : IsSquare u) (x : Float) : ¬ u.Meets x := by
  obtain ⟨⟨a, b⟩, rfl⟩ := square
  have norm : normSq (⟨a, b⟩ * ⟨a, b⟩) = (a * a + b * b) * (a * a + b * b) := by
    simp only [normSq, re_mul, im_mul]
    ring
  have isSquare : IsSquare (normSq (⟨a, b⟩ * ⟨a, b⟩)) := ⟨_, norm⟩
  rintro (⟨axis, irrational, -⟩ | ⟨-, irrational, -⟩ | ⟨-, nonneg, sized, halves, irrational, -⟩ |
    ⟨-, _, _, ⟨irrational, -⟩, -⟩ | ⟨-, ⟨_, _, ⟨irrational, -⟩, -⟩, -⟩)
  case real =>
    -- one part of a square root of a real number is zero
    apply irrational
    have double : 2 * (a * b) = 0 := by
      simpa [two_mul, mul_comm b a] using axis
    rcases mul_eq_zero.mp ((mul_eq_zero.mp double).resolve_left two_ne_zero) with rfl | rfl
    · exact ⟨b, by simp⟩
    · exact ⟨a, by simp⟩
  case part size half =>
    apply irrational
    have same : size = a * a + b * b := by
      rw [norm] at sized
      rcases mul_self_eq_mul_self_iff.mp sized with same | opposite
      · exact same.symm
      · nlinarith [mul_self_nonneg a, mul_self_nonneg b]
    rcases halves with rfl | rfl
    · refine ⟨a, ?_⟩
      rw [same, re_mul]
      ring
    · refine ⟨b, ?_⟩
      rw [same, re_mul]
      ring
  all_goals exact irrational isSquare

/-- The real part is at most the size. -/
theorem abs_re_le {u : Gaussian} {size : Rat} (nonneg : 0 ≤ size)
    (square : u.normSq = size * size) : -size ≤ u.re ∧ u.re ≤ size := by
  apply abs_le_of_sq_le_sq'
  · rw [sq, sq, ← square]
    exact le_add_of_nonneg_right (mul_self_nonneg _)
  · exact nonneg

/-- A number is a square when its size is rational and both halves are squares. -/
theorem isSquare_of_halves {u : Gaussian} {size : Rat} (square : u.normSq = size * size)
    (outer : IsSquare ((u.re + size) / 2)) (inner : IsSquare ((size - u.re) / 2)) :
    IsSquare u := by
  obtain ⟨a, outer⟩ := outer
  obtain ⟨b, inner⟩ := inner
  have re : u.re = a * a - b * b := by linarith
  have im : u.im * u.im = 2 * (a * b) * (2 * (a * b)) := by
    have product : 2 * (a * b) * (2 * (a * b)) = (u.re + size) * (size - u.re) := by
      linear_combination (-4 * (b * b)) * outer - 2 * (u.re + size) * inner
    have sum : u.re * u.re + u.im * u.im = size * size := square
    rw [product]
    linear_combination sum
  rcases mul_self_eq_mul_self_iff.mp im with same | opposite
  · exact ⟨⟨a, b⟩, Gaussian.ext re (by rw [same, im_mul]; ring)⟩
  · exact ⟨⟨a, -b⟩, Gaussian.ext (by rw [re, re_mul]; ring) (by rw [opposite, im_mul]; ring)⟩

end Gaussian

namespace Value

open Outcome Gaussian

/-! ## Rational radicands -/

/-- A rational that is not a square has a double as its root. -/
theorem rationalRoot_of_not_isSquare {q : Rat} (nonneg : 0 ≤ q) (irrational : ¬ IsSquare q) :
    rationalRoot q = (floatRoot q).map (ofFloat true) := by
  rw [rationalRoot]
  split
  next m n numRoot denRoot =>
    have num : IsSquare q.num := by
      rw [← Int.natAbs_of_nonneg (Rat.num_nonneg.mpr nonneg), Int.isSquare_natCast_iff]
      exact ⟨m, (mul_self_of_squareRoot?_eq_some numRoot).symm⟩
    have den : IsSquare q.den := ⟨n, (mul_self_of_squareRoot?_eq_some denRoot).symm⟩
    exact absurd (Rat.isSquare_iff.mpr ⟨num, den⟩) irrational
  next => rfl

/-- A root of a rational is the root of a square, or it is computed as a double. -/
theorem isSquare_or_roundsTo {q : Rat} {y : Value} (nonneg : 0 ≤ q)
    (root : rationalRoot q = .ok y) : IsSquare q ∨ ∃ x, RoundsTo q x ∧ y = ofFloat true x := by
  by_cases square : IsSquare q
  · exact .inl square
  · rw [rationalRoot_of_not_isSquare nonneg square] at root
    rcases map_eq_ok_iff.mp root with ⟨x, computed, rfl⟩
    exact .inr ⟨x, ⟨square, computed⟩, rfl⟩

/-! ## Inexact values in simplest form -/

/-- An inexact value that is in simplest form. -/
def Rough (v : Value) : Prop := ∃ x, v = .inexact x ∧ v.simplest = v

theorem ofFloat_of_rough {x : Float} (rough : Binary64.toInt? x = none) :
    ofFloat true x = .float x := by
  simp [ofFloat, rough]

/-- Zero is an integer. -/
theorem beq_zero_of_rough {x : Float} (rough : Binary64.toInt? x = none) :
    (x == 0.0) = false := by
  by_contra zero
  rw [Binary64.toInt?_of_beq_zero (Bool.not_eq_false _ ▸ zero)] at rough
  contradiction

theorem rough_float {x : Float} (rough : Binary64.toInt? x = none) : (float x).Rough :=
  ⟨_, rfl, ofFloat_of_rough rough⟩

theorem rough_complex {re im : Float} (nonzero : (im == 0.0) = false) :
    (complex re im).Rough :=
  ⟨_, rfl, by simp [simplest, simplify, nonzero]⟩

/-- The inexact values in simplest form by kind. -/
theorem Rough.cases {v : Value} (rough : v.Rough) :
    (∃ x, v = .float x ∧ Binary64.toInt? x = none) ∨
      ∃ re im, v = .complex re im ∧ (im == 0.0) = false := by
  rcases rough with ⟨x | ⟨re, im⟩, rfl, simple⟩
  · left
    refine ⟨x, rfl, ?_⟩
    cases whole : Binary64.toInt? x with
    | none => rfl
    | some n => simp [simplest, simplify, ofFloat, whole] at simple
  · right
    refine ⟨re, im, rfl, ?_⟩
    by_contra zero
    cases whole : Binary64.toInt? re with
    | none => simp [simplest, simplify, ofFloat, whole, zero] at simple
    | some n => simp [simplest, simplify, ofFloat, whole, zero] at simple

theorem Rough.not_isGaussian {v : Value} (rough : v.Rough) : ¬ v.IsGaussian := by
  rcases rough with ⟨x, rfl, -⟩
  simp [IsGaussian, gaussian?]

theorem Rough.isZero_eq {v : Value} (rough : v.Rough) : v.isZero = .ok false := by
  obtain ⟨x, rfl, whole⟩ | ⟨re, im, rfl, nonzero⟩ := rough.cases
  · simp [isZero, Inexact.isZero, Inexact.re, beq_zero_of_rough whole]
  · simp [isZero, Inexact.isZero, Inexact.im, nonzero]

theorem Rough.neg {v w : Value} (rough : v.Rough) (negation : v.neg = .ok w) : w.Rough := by
  obtain ⟨x, rfl, whole⟩ | ⟨re, im, rfl, nonzero⟩ := rough.cases
  · obtain rfl := Except.ok.inj negation
    exact rough_float (by simp [Binary64.toInt?_neg, whole])
  · obtain rfl := Except.ok.inj negation
    refine rough_complex ?_
    by_contra zero
    rw [Binary64.beq_zero_of_neg (Bool.not_eq_false _ ▸ zero)] at nonzero
    contradiction

/-! ## Making complex values -/

/-- A value that is made from parts is the real part alone, or exact, or floating. -/
theorem makeComplex_cases {a b r : Value} (made : makeComplex a b = .ok r) :
    (b.simplest.isZero = .ok true ∧ r = a.simplest) ∨
      (∃ p q, a.simplest.rational? = some p ∧ b.simplest.rational? = some q ∧
        r = ofGaussian ⟨p, q⟩) ∨
      ∃ x y, a.simplest.toFloat = .ok x ∧ b.simplest.toFloat = .ok y ∧ r = .complex x y := by
  rcases bind_eq_ok_iff.mp made with ⟨zero, checked, made⟩
  cases zero with
  | true => exact .inl ⟨checked, (Except.ok.inj made).symm⟩
  | false =>
    right
    rw [if_neg Bool.false_ne_true] at made
    split at made
    next p q left right => exact .inl ⟨p, q, left, right, (Except.ok.inj made).symm⟩
    next =>
      rcases bind_eq_ok_iff.mp made with ⟨x, left, made⟩
      rcases bind_eq_ok_iff.mp made with ⟨y, right, made⟩
      exact .inr ⟨x, y, left, right, (Except.ok.inj made).symm⟩

/-- A rough real part does not make an exact value. -/
theorem not_isGaussian_makeComplex {a b r : Value} (rough : a.Rough)
    (made : makeComplex a b = .ok r) : ¬ r.IsGaussian := by
  have simple : a.simplest = a := rough.choose_spec.2
  obtain ⟨-, rfl⟩ | ⟨p, q, rational, -, -⟩ | ⟨x, y, -, -, rfl⟩ := makeComplex_cases made
  · rw [simple]
    exact rough.not_isGaussian
  · rcases rough with ⟨x, rfl, -⟩
    rw [simple] at rational
    contradiction
  · simp [IsGaussian, gaussian?]

/-- A rough imaginary part makes a rough value. -/
theorem rough_makeComplex {a b r : Value} (rough : b.Rough) (made : makeComplex a b = .ok r) :
    r.Rough := by
  have simple : b.simplest = b := rough.choose_spec.2
  obtain ⟨zero, -⟩ | ⟨p, q, -, rational, -⟩ | ⟨x, y, -, floated, rfl⟩ := makeComplex_cases made
  · rw [simple, rough.isZero_eq] at zero
    contradiction
  · rcases rough with ⟨x, rfl, -⟩
    rw [simple] at rational
    contradiction
  · rw [simple] at floated
    obtain ⟨z, rfl, whole⟩ | ⟨re, im, rfl, -⟩ := rough.cases
    · obtain rfl := Except.ok.inj floated
      exact rough_complex (beq_zero_of_rough whole)
    · contradiction

/-! ## Halves -/

/-- The root of a floating value is taken on the imaginary axis below zero. -/
theorem realRoot_float (h : Float) : realRoot (.float h) =
    if h < 0.0 then makeComplex (.int 0) (ofFloat true (-h).sqrt) else .ok (ofFloat true h.sqrt) := by
  by_cases negative : h < 0.0 <;>
    simp [realRoot, tidy, simplify, ofFloat, isBelowZero, nonnegRoot, Value.neg, ok, Inexact.neg,
      negative]

/-- The root of a floating number is rough when the double of it is. -/
theorem rough_realRoot {h : Float} {y : Value} (root : realRoot (.float h) = .ok y)
    (rough : Binary64.toInt? (unsigned h).sqrt = none) : y.Rough := by
  rw [unsigned] at rough
  rw [realRoot_float] at root
  split at root
  next negative =>
    rw [if_pos negative] at rough
    rw [ofFloat_of_rough rough] at root
    exact rough_makeComplex (rough_float rough) root
  next nonneg =>
    rw [if_neg nonneg] at rough
    rw [ofFloat_of_rough rough] at root
    obtain rfl := Except.ok.inj root
    exact rough_float rough

theorem sub_ofRat (size : Float) (p : Rat) :
    (Value.float size).sub (ofRat p) = (do ok (.sub (.real size) (← Inexact.ofRat p))) := by
  rw [ofRat]
  split
  next whole =>
    have number : (p.num : Rat) = p := Rat.coe_int_num_of_den_eq_one whole
    simp [sub, Rules.combine, subRules, number]
  next => rfl

/-- The half of a double is computed in floating point. -/
theorem quo_two_float (x : Float) :
    (Value.float x).quo (.int 2) = .ok (ofFloat true (x / 2.0)) := by
  have two : Inexact.ofRat 2 = .ok (.real 2.0) := by decide
  have nonzero : ((2.0 : Float) == 0.0) = false := by decide
  simp [quo, isZero, rational?, div, Rules.combine, divRules, two, inexactQuotient, Inexact.div?,
    nonzero, ok, simplest, simplify]

/-- The half of the difference of a double and a rational. -/
theorem halfDifference_float {size : Float} {p : Rat} {y : Value}
    (root : halfRoot ((Value.float size).sub (ofRat p)) = .ok y) :
    ∃ re, Binary64.ofRat? p = some re ∧ realRoot (ofFloat true ((size - re) / 2.0)) = .ok y := by
  rcases bind_eq_ok_iff.mp root with ⟨difference, subtracted, rest⟩
  rcases bind_eq_ok_iff.mp rest with ⟨half, divided, rooted⟩
  rw [sub_ofRat] at subtracted
  rcases bind_eq_ok_iff.mp subtracted with ⟨converted, conversion, computed⟩
  unfold Inexact.ofRat at conversion
  split at conversion
  next re near =>
    obtain rfl := Except.ok.inj conversion
    obtain rfl := Except.ok.inj computed
    obtain rfl := Except.ok.inj ((quo_two_float _).symm.trans divided)
    exact ⟨re, near, rooted⟩
  next => contradiction

/-! ## The half-angle formula -/

/-- The formula makes a value from the roots of two halves, of which the second may change its
sign. -/
theorem complexRoot_cases {p q : Rat} {r : Value}
    (root : complexRoot (ofRat p) (ofRat q) = .ok r) :
    ∃ size x y z, rationalRoot (p * p + q * q) = .ok size ∧
      halfRoot ((ofRat p).add size) = .ok x ∧ halfRoot (size.sub (ofRat p)) = .ok y ∧
      (z = y ∨ y.neg = .ok z) ∧ makeComplex x z = .ok r := by
  rw [complexRoot_eq] at root
  rcases bind_eq_ok_iff.mp root with ⟨size, sized, root⟩
  rcases bind_eq_ok_iff.mp root with ⟨x, outer, root⟩
  rcases bind_eq_ok_iff.mp root with ⟨y, inner, root⟩
  split at root
  next =>
    rcases bind_eq_ok_iff.mp root with ⟨z, negated, made⟩
    exact ⟨size, x, y, z, sized, outer, inner, .inr negated, made⟩
  next => exact ⟨size, x, y, y, sized, outer, inner, .inl rfl, root⟩

section Complex

variable {u : Gaussian} (nonreal : u.im ≠ 0)
  (rough : ∀ x, u.Meets x → Binary64.toInt? x = none)

include nonreal rough

/-- A half of a rational size is a square, or its root is rough. -/
theorem isSquare_or_rough {size half : Rat} {x : Value} (sizeNonneg : 0 ≤ size)
    (square : u.normSq = size * size) (nonneg : 0 ≤ half)
    (halves : half = (u.re + size) / 2 ∨ half = (size - u.re) / 2)
    (root : rationalRoot half = .ok x) : IsSquare half ∨ x.Rough := by
  rcases isSquare_or_roundsTo nonneg root with square | ⟨z, rounds, rfl⟩
  · exact .inl square
  · have whole := rough z (.part nonreal sizeNonneg square halves rounds)
    rw [ofFloat_of_rough whole]
    exact .inr (rough_float whole)

/-- The root of the inner half of an irrational size is rough. -/
theorem rough_innerHalf {s : Float} {y : Value} (rounds : RoundsTo u.normSq s)
    (root : halfRoot ((Value.float s).sub (ofRat u.re)) = .ok y) : y.Rough := by
  rcases halfDifference_float root with ⟨re, near, rooted⟩
  have halves : u.IsFloatHalf ((s - re) / 2.0) :=
    ⟨s, re, rounds, rough s (.size nonreal rounds), near, .inr rfl⟩
  have whole := rough _ (.half nonreal halves)
  rw [ofFloat_of_rough whole] at rooted
  exact rough_realRoot rooted (rough _ (.halfRoot nonreal halves whole))

/-- A number of rational size is a square when neither half has a rough root. -/
theorem isSquare_of_halfRoots {size : Rat} {x y : Value} (nonneg : 0 ≤ size)
    (square : u.normSq = size * size)
    (outer : halfRoot ((ofRat u.re).add (ofRat size)) = .ok x)
    (inner : halfRoot ((ofRat size).sub (ofRat u.re)) = .ok y) (outerPlain : ¬ x.Rough)
    (innerPlain : ¬ y.Rough) : IsSquare u := by
  obtain ⟨lower, upper⟩ := abs_re_le nonneg square
  have sumNonneg : 0 ≤ u.re + size := by linarith
  have gapNonneg : 0 ≤ size - u.re := by linarith
  have sum := add_computes (gaussian?_ofRat u.re) (gaussian?_ofRat size)
  have gap := sub_computes (gaussian?_ofRat size) (gaussian?_ofRat u.re)
  rw [← Gaussian.ofRat_add] at sum
  rw [← Gaussian.ofRat_sub] at gap
  rw [halfRoot_computes sum sumNonneg] at outer
  rw [halfRoot_computes gap gapNonneg] at inner
  have outerSquare := isSquare_or_rough nonreal rough nonneg square
    (div_nonneg sumNonneg two_pos.le) (.inl rfl) outer
  have innerSquare := isSquare_or_rough nonreal rough nonneg square
    (div_nonneg gapNonneg two_pos.le) (.inr rfl) inner
  exact isSquare_of_halves square (outerSquare.resolve_right outerPlain)
    (innerSquare.resolve_right innerPlain)

/-- An exact value that the formula gives is the root of a square. -/
theorem isSquare_of_complexRoot {r : Value}
    (root : complexRoot (ofRat u.re) (ofRat u.im) = .ok r) (exact : r.IsGaussian) :
    IsSquare u := by
  obtain ⟨size, x, y, z, sized, outer, inner, signed, made⟩ := complexRoot_cases root
  have outerPlain : ¬ x.Rough := fun rough => not_isGaussian_makeComplex rough made exact
  have innerPlain : ¬ y.Rough := by
    intro rough
    rcases signed with rfl | negated
    · exact (rough_makeComplex rough made).not_isGaussian exact
    · exact (rough_makeComplex (rough.neg negated) made).not_isGaussian exact
  have normNonneg : 0 ≤ u.normSq := add_nonneg (mul_self_nonneg _) (mul_self_nonneg _)
  rcases isSquare_or_roundsTo normNonneg sized with ⟨t, norm⟩ | ⟨s, rounds, rfl⟩
  · have rational := rationalRoot_mul_self (abs_nonneg t)
    rw [abs_mul_abs_self, ← norm] at rational
    obtain rfl : size = ofRat |t| := Except.ok.inj (sized.symm.trans rational)
    exact isSquare_of_halfRoots nonreal rough (abs_nonneg t) (by rw [norm, abs_mul_abs_self])
      outer inner outerPlain innerPlain
  · -- the inner half of an irrational size would be rough
    rw [ofFloat_of_rough (rough s (.size nonreal rounds))] at inner
    exact absurd (rough_innerHalf nonreal rough rounds inner) innerPlain

end Complex

/-- An exact root on one of the axes is the root of a square. -/
theorem isSquare_of_realRoot {v r : Value} {q : Rat} (denoted : v.gaussian? = some (.ofRat q))
    (rough : ∀ x, RoundsTo |q| x → Binary64.toInt? x = none) (root : realRoot v = .ok r)
    (exact : r.IsGaussian) : IsSquare (Gaussian.ofRat q) := by
  rw [realRoot_of_gaussian? denoted] at root
  split at root
  next negative =>
    have positive : 0 ≤ -q := neg_nonneg.mpr negative.le
    rcases bind_eq_ok_iff.mp root with ⟨y, rooted, made⟩
    rcases isSquare_or_roundsTo positive rooted with ⟨p, square⟩ | ⟨x, rounds, rfl⟩
    · exact ⟨⟨0, p⟩, Gaussian.ext (by simp [← square]) (by simp)⟩
    · rw [← abs_of_neg negative] at rounds
      rw [ofFloat_of_rough (rough x rounds)] at made
      exact absurd exact (rough_makeComplex (rough_float (rough x rounds)) made).not_isGaussian
  next nonneg =>
    rw [not_lt] at nonneg
    rcases isSquare_or_roundsTo nonneg root with ⟨p, square⟩ | ⟨x, rounds, rfl⟩
    · exact ⟨.ofRat p, by rw [square, Gaussian.ofRat_mul]⟩
    · rw [← abs_of_nonneg nonneg] at rounds
      rw [ofFloat_of_rough (rough x rounds)] at exact
      exact absurd exact (rough_float (rough x rounds)).not_isGaussian

/-- An exact root is the root of a square, if no double on the way is an integer. -/
theorem isSquare_of_sqrt {v r : Value} {u : Gaussian} (denoted : v.gaussian? = some u)
    (rough : ∀ x, u.Meets x → Binary64.toInt? x = none) (root : v.sqrt = .ok r)
    (exact : r.IsGaussian) : IsSquare u := by
  rw [sqrt, isComplex_of_gaussian? denoted, realPart_of_gaussian? denoted,
    imagPart_of_gaussian? denoted] at root
  by_cases axis : u.im = 0
  · have real : Gaussian.ofRat u.re = u := Gaussian.ext rfl axis.symm
    rw [if_neg (by simpa using axis)] at root
    rw [← real] at denoted ⊢
    exact isSquare_of_realRoot denoted (fun x rounds => rough x (.real axis rounds)) root exact
  · rw [if_pos (by simpa using axis)] at root
    exact isSquare_of_complexRoot axis rough root exact

/-- The root of a natural number is an integer when it is a square, or its double is an integer. -/
theorem sqrt_natCast_eq_int_iff (n : Nat) :
    (∃ m, (Value.int n).sqrt = .ok (.int m)) ↔
      IsSquare n ∨ ∃ x, RoundsTo n x ∧ (Binary64.toInt? x).isSome := by
  have opened : (Value.int n).sqrt = rationalRoot (n : Rat) :=
    realRoot_of_nonneg (v := .int n) (Nat.cast_nonneg n) rfl
  rw [opened]
  constructor
  · rintro ⟨m, root⟩
    rcases isSquare_or_roundsTo (Nat.cast_nonneg n) root with square | ⟨x, rounds, whole⟩
    · exact .inl (Rat.isSquare_natCast_iff.mp square)
    · refine .inr ⟨x, rounds, ?_⟩
      by_contra rough
      rw [ofFloat_of_rough (by simpa using rough)] at whole
      contradiction
  · rintro (⟨k, rfl⟩ | ⟨x, ⟨irrational, computed⟩, whole⟩)
    · refine ⟨k, ?_⟩
      rw [Nat.cast_mul, rationalRoot_mul_self (Nat.cast_nonneg k)]
      exact congrArg Except.ok (ofRat_intCast k)
    · rcases Option.isSome_iff_exists.mp whole with ⟨m, integral⟩
      refine ⟨m, ?_⟩
      rw [rationalRoot_of_not_isSquare (Nat.cast_nonneg n) irrational, computed]
      simp [Except.map, ofFloat, integral]

/-- An exact root of an exact value squares to it exactly when no double on the way to the root is
an integer.  For a natural number the result is an integer when the number is a square, or when the
double that is computed for its root is an integer. -/
theorem sqrt_exact :
    (∀ v r : Value, v.IsGaussian → v.sqrt = .ok r → r.IsGaussian →
      (r.number * r.number = v.number ↔ ∀ x, v.number.Meets x → Binary64.toInt? x = none)) ∧
    ∀ n : Nat, (∃ m, (Value.int n).sqrt = .ok (.int m)) ↔
      IsSquare n ∨ ∃ x, RoundsTo n x ∧ (Binary64.toInt? x).isSome := by
  refine ⟨fun v r exact root exactRoot => ?_, sqrt_natCast_eq_int_iff⟩
  constructor
  · intro square x meets
    exact absurd meets (not_meets_of_isSquare ⟨r.number, square.symm⟩ x)
  · intro rough
    obtain ⟨w, square⟩ := isSquare_of_sqrt exact.gaussian?_eq rough root exactRoot
    have principal := sqrt_mul_self (exact.gaussian?_eq.trans (congrArg some square))
    obtain rfl := Except.ok.inj (root.symm.trans principal)
    rw [number_ofGaussian, w.principal_mul_self, square]

/-- No double on the way from `3 + 4 * i` to its root is an integer, and one is on the way from
`20000000000000001 * i` to `100000000 + 100000000 * i`. -/
theorem sqrt_exact_both :
    let v : Value := .exact 3 4 (by decide)
    let w : Value := .exact 0 20000000000000001 (by decide)
    v.sqrt = .ok (.exact 2 1 (by decide)) ∧
      w.sqrt = .ok (.exact 100000000 100000000 (by decide)) ∧
      (∀ x, v.number.Meets x → Binary64.toInt? x = none) ∧
      ¬ ∀ x, w.number.Meets x → Binary64.toInt? x = none := by
  intro v w
  have root : v.sqrt = .ok (.exact 2 1 (by decide)) := by decide +kernel
  have whole : w.sqrt = .ok (.exact 100000000 100000000 (by decide)) := by decide +kernel
  refine ⟨root, whole, (sqrt_exact.1 v _ rfl root rfl).mp (by decide +kernel), fun rough => ?_⟩
  have square := (sqrt_exact.1 w _ rfl whole rfl).mpr rough
  revert square
  decide +kernel

/-- The integer `10000000000000001` is not a square, and its root is returned as an integer. -/
theorem sqrt_of_nonsquare_whole :
    let v : Value := .int 10000000000000001
    let r : Value := .int 100000000
    v.IsGaussian ∧ v.sqrt = .ok r ∧ r.IsGaussian ∧ r.number * r.number ≠ v.number ∧
      ¬ IsSquare (10000000000000001 : Nat) := by
  intro v r
  exact ⟨rfl, by decide +kernel, rfl, by decide +kernel, by decide +kernel⟩

end Value

end ExactRoots
