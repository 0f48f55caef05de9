import ExactRoots.Proofs.Value.RealRoot

/-!
# The half-angle formula

The root of a complex value is made of the roots of two halves, those of the sum and of the
difference of its size and its real part.  The size is rounded, and where it is rounded below
the real part one half is negative: its root is imaginary, and no value is made of that.
-/

namespace ExactRoots.Value

open Outcome Binary64

variable {re im size h k v : Value} {p q t : Rat} {x y : Float}

/-! ## The formula in parts -/

/-- Half of the sum and half of the difference of a size and a real part. -/
def halve (re size : Value) : Except Fault (Value × Value) := do
  let outer ← quo (← re.add size) (.int 2)
  let inner ← quo (← size.sub re) (.int 2)
  return (outer, inner)

/-- The halves whose roots the half-angle formula takes. -/
def halves (re im : Value) : Except Fault (Value × Value) := do
  halve re (← realRoot (← (← re.mul re).add (← im.mul im)))

/-- The value that is made of the roots of two halves. -/
def fromHalves (negative : Bool) (outer inner : Value) : Except Fault Value := do
  let x ← realRoot outer
  let y ← realRoot inner
  makeComplex x (← y.signed negative)

theorem complexRoot_of_halves {negative : Bool} (computed : halves re im = .ok (h, k))
    (signed : im.isBelowZero = .ok negative) :
    complexRoot re im = fromHalves negative h k := by
  simp only [halves, halve, bind_eq_ok_iff, pure_eq_ok, Except.ok.injEq, Prod.mk.injEq] at computed
  rcases computed with ⟨reSquare, reSquared, imSquare, imSquared, square, added, size, root, sum,
    summed, outer, halved, gap, subtracted, inner, halved', rfl, rfl⟩
  cases negative <;>
    simp [complexRoot, fromHalves, Value.signed, reSquared, imSquared, added, root, summed, halved,
      subtracted, halved', signed]

/-- Without its halves a root has no value. -/
theorem complexRoot_of_no_halves {fault : Fault} (failed : halves re im = .error fault) :
    ∃ fault, complexRoot re im = .error fault := by
  cases computed : complexRoot re im with
  | error fault => exact ⟨fault, rfl⟩
  | ok r =>
    simp only [complexRoot, bind_eq_ok_iff] at computed
    rcases computed with ⟨reSquare, reSquared, imSquare, imSquared, square, added, size, root, sum,
      summed, outer, halved, x, -, gap, subtracted, inner, halved', -⟩
    simp [halves, halve, reSquared, imSquared, added, root, summed, halved, subtracted,
      halved'] at failed

/-! ## Signs of the halves -/

/-- Whether a half is above zero and the other one is below it by no more. -/
structure Outweighs (k h : Value) : Prop where
  negative : h.IsNegative
  nonneg : k.IsNonneg
  nonzero : k.isZero = .ok false
  larger : k.TooSmall → h.TooSmall

/-- The signs of two halves: at most one of them is below zero. -/
inductive Halves (h k : Value) : Prop
  | nonneg (outer : h.IsNonneg) (inner : k.IsNonneg)
      (joint : h.Convertible ∧ k.Convertible ∨
        ∃ p q, h = ofRat p ∧ k = ofRat q ∧ (IsSquare p ↔ IsSquare q))
  | outer (outweighs : k.Outweighs h)
  | inner (outweighs : h.Outweighs k)

/-- The root of a half above zero is not zero. -/
theorem Outweighs.root_nonzero {y : Value} (outweighs : k.Outweighs h) (large : ¬ h.TooSmall)
    (root : k.Root y) : y.isZero = .ok false := by
  rcases root.form.exists_isZero with ⟨zero, checked⟩
  cases zero with
  | false => exact checked
  | true =>
    rcases root.zero checked with zero | small
    · rw [outweighs.nonzero] at zero
      contradiction
    · exact absurd (outweighs.larger small) large

theorem isRational_rationalRoot {y : Value} (square : IsSquare q) (root : rationalRoot q = .ok y) :
    y.IsRational := by
  rcases square with ⟨s, rfl⟩
  rw [← abs_mul_abs_self s, rationalRoot_mul_self (abs_nonneg s), Except.ok.injEq] at root
  exact root ▸ isRational_ofRat _

/-- The roots of two rationals that are both squares or both not are rational or have doubles. -/
theorem joint_rationalRoot {x y : Value} (nonneg : 0 ≤ p) (nonneg' : 0 ≤ q)
    (squares : IsSquare p ↔ IsSquare q) (outer : rationalRoot p = .ok x)
    (inner : rationalRoot q = .ok y) :
    x.Convertible ∧ y.Convertible ∨ x.IsRational ∧ y.IsRational := by
  rcases isSquare_or_roundsTo nonneg outer with square | ⟨a, ⟨irrational, -⟩, rfl⟩
  · exact .inr ⟨isRational_rationalRoot square outer, isRational_rationalRoot (squares.mp square) inner⟩
  · rcases isSquare_or_roundsTo nonneg' inner with square | ⟨b, -, rfl⟩
    · exact absurd (squares.mpr square) irrational
    · exact .inl ⟨convertible_ofFloat a, convertible_ofFloat b⟩

section Roots

variable (outer : h.RealForm) (inner : k.RealForm) (short : ¬ h.TooLong) (short' : ¬ k.TooLong)
  (negative : Bool)

include outer inner short short'

/-- Two halves that are not below zero make a value with a real part that is not. -/
theorem fromHalves_nonneg (nonneg : h.IsNonneg) (nonneg' : k.IsNonneg)
    (joint : h.Convertible ∧ k.Convertible ∨
      ∃ p q, h = ofRat p ∧ k = ofRat q ∧ (IsSquare p ↔ IsSquare q)) :
    ∃ r, fromHalves negative h k = .ok r ∧ r.realPart.IsNonneg := by
  rcases outer.realRoot_of_nonneg nonneg short with ⟨x, rooted, root⟩
  rcases inner.realRoot_of_nonneg nonneg' short' with ⟨y, rooted', root'⟩
  rcases root'.form.exists_signed negative with ⟨z, signed, mirrors⟩
  simp only [fromHalves, rooted, rooted', signed, ok_bind]
  refine makeComplex_nonneg root.form mirrors.form root.nonneg ?_
  have roots : x.Convertible ∧ y.Convertible ∨ x.IsRational ∧ y.IsRational := by
    rcases joint with ⟨double, double'⟩ | ⟨p, q, rfl, rfl, squares⟩
    · exact .inl ⟨root.convertible double, root'.convertible double'⟩
    · rw [isNonneg_ofRat] at nonneg nonneg'
      rw [realRoot_of_nonneg nonneg (gaussian?_ofRat p)] at rooted
      rw [realRoot_of_nonneg nonneg' (gaussian?_ofRat q)] at rooted'
      exact joint_rationalRoot nonneg nonneg' squares rooted rooted'
  exact roots.imp (And.imp_right mirrors.convertible) (And.imp_right mirrors.rational)

theorem fromHalves_outer (outweighs : k.Outweighs h) (large : ¬ h.TooSmall) :
    ∃ fault, fromHalves negative h k = .error fault := by
  rcases outer.realRoot_of_negative outweighs.negative short large with ⟨x, rooted, nonreal⟩
  rcases inner.realRoot_of_nonneg outweighs.nonneg short' with ⟨y, rooted', root⟩
  rcases root.form.exists_signed negative with ⟨z, signed, mirrors⟩
  have nonzero : z.isZero = .ok false := by
    rw [mirrors.zero, outweighs.root_nonzero large root]
  simp only [fromHalves, rooted, rooted', signed, ok_bind]
  exact ⟨_, nonreal.makeComplex_left mirrors.form.normal nonzero⟩

theorem fromHalves_inner (outweighs : h.Outweighs k) (large : ¬ k.TooSmall) :
    ∃ fault, fromHalves negative h k = .error fault := by
  rcases outer.realRoot_of_nonneg outweighs.nonneg short with ⟨x, rooted, root⟩
  rcases inner.realRoot_of_negative outweighs.negative short' large with ⟨y, rooted', nonreal⟩
  rcases nonreal.exists_signed negative with ⟨z, signed, nonreal'⟩
  simp only [fromHalves, rooted, rooted', signed, ok_bind]
  exact nonreal'.makeComplex_right root.form.normal

end Roots

/-! ## Halves of rationals -/

theorem halve_ofRat (p t : Rat) :
    halve (ofRat p) (ofRat t) = .ok (ofRat ((p + t) / 2), ofRat ((t - p) / 2)) := by
  rcases add_computes (gaussian?_ofRat p) (gaussian?_ofRat t) with ⟨sum, added, denoted⟩
  rcases sub_computes (gaussian?_ofRat t) (gaussian?_ofRat p) with ⟨gap, subtracted, denoted'⟩
  rw [← Gaussian.ofRat_add] at denoted
  rw [← Gaussian.ofRat_sub] at denoted'
  simp only [halve, added, subtracted, quo_two denoted, quo_two denoted', ok_bind, pure_eq_ok]

/-- A half of a sum of rationals that is below zero is no further from it than the half of their
difference. -/
theorem outweighs_ofRat (below : p < 0) (above : 0 ≤ p + q) : (ofRat q).Outweighs (ofRat p) := by
  have positive : 0 < q := by linarith
  refine ⟨isNegative_ofRat.mpr below, isNonneg_ofRat.mpr positive.le, ?_, ?_⟩
  · simp [isZero_ofRat, positive.ne']
  · rw [tooSmall_ofRat, tooSmall_ofRat, abs_of_pos positive, abs_of_neg below]
    rintro ⟨-, small⟩
    exact ⟨below.ne, le_trans (by linarith) small⟩

theorem halves_ofRat (nonneg : 0 ≤ t) (joint : t < overflowThreshold ∨
    (IsSquare ((p + t) / 2) ↔ IsSquare ((t - p) / 2))) :
    Halves (ofRat ((p + t) / 2)) (ofRat ((t - p) / 2)) := by
  rcases lt_or_ge ((p + t) / 2) 0 with below | outer
  · exact .outer (outweighs_ofRat below (by linarith))
  rcases lt_or_ge ((t - p) / 2) 0 with below | inner
  · exact .inner (outweighs_ofRat below (by linarith))
  refine .nonneg (isNonneg_ofRat.mpr outer) (isNonneg_ofRat.mpr inner) ?_
  refine joint.imp (fun small => ?_) fun squares => ⟨_, _, rfl, rfl, squares⟩
  rw [convertible_ofRat, convertible_ofRat, abs_of_nonneg outer, abs_of_nonneg inner]
  constructor <;> linarith

/-- Two rationals whose product is a square are both squares or both not. -/
theorem isSquare_iff_of_mul {r : Rat} (product : p * q = r * r) (nonzero : r ≠ 0) :
    IsSquare p ↔ IsSquare q := by
  have one_of : ∀ {a b : Rat}, a * b = r * r → IsSquare a → IsSquare b := by
    rintro _ b product ⟨s, rfl⟩
    have some : s ≠ 0 := by
      rintro rfl
      simp [eq_comm, nonzero] at product
    refine ⟨r / s, ?_⟩
    rw [div_mul_div_comm, ← product, mul_div_cancel_left₀ b (mul_ne_zero some some)]
  exact ⟨one_of product, one_of (mul_comm p q ▸ product)⟩

/-! ## Halves of doubles -/

theorem not_tooSmall_ofFloat (x : Float) : ¬ (ofFloat true x).TooSmall := by
  rw [ofFloat, if_pos rfl]
  split <;> exact id

theorem outweighs_ofFloat (below : Below x) (above : Above y) :
    (ofFloat true y).Outweighs (ofFloat true x) := by
  refine ⟨isNegative_ofFloat.mpr below, isNonneg_ofFloat.mpr above.nonneg, ?_,
    fun small => absurd small (not_tooSmall_ofFloat y)⟩
  rw [isZero_ofFloat, above.beq_zero_eq_false]

theorem halves_ofFloat (value : toRat? x = some p) (nonneg : Binary64.Nonneg y) :
    Halves (ofFloat true ((x + y) / 2.0)) (ofFloat true ((y - x) / 2.0)) := by
  obtain ⟨outer, inner⟩ | ⟨below, above⟩ | ⟨above, below⟩ := halves_cases value nonneg
  · exact .nonneg (isNonneg_ofFloat.mpr outer) (isNonneg_ofFloat.mpr inner)
      (.inl ⟨convertible_ofFloat _, convertible_ofFloat _⟩)
  · exact .outer (outweighs_ofFloat below above)
  · exact .inner (outweighs_ofFloat below above)

theorem halve_float (x y : Float) : halve (.float x) (.float y) =
    .ok (ofFloat true ((x + y) / 2.0), ofFloat true ((y - x) / 2.0)) := by
  have added : (Value.float x).add (.float y) = .ok (.float (x + y)) := rfl
  have subtracted : (Value.float y).sub (.float x) = .ok (.float (y - x)) := rfl
  simp only [halve, added, subtracted, quo_two_float, ok_bind, pure_eq_ok]

/-- A rational beside a double is rounded first. -/
theorem halve_ofRat_float (small : |p| < overflowThreshold) (y : Float) :
    halve (ofRat p) (.float y) = halve (.float (Binary64.ofRat p)) (.float y) := by
  have added : (ofRat p).add (.float y) = (Value.float (Binary64.ofRat p)).add (.float y) :=
    add_ofRat_inexact small
  have subtracted : (Value.float y).sub (ofRat p) =
      (Value.float y).sub (.float (Binary64.ofRat p)) :=
    combine_inexact_ofRat subRules small
  rw [halve, halve, added, subtracted]

/-- A double that is an integer is converted to a double again. -/
theorem halve_float_int {n : Int} (nearest : ofRat? n = some y) (x : Float) :
    halve (.float x) (.int n) = halve (.float x) (.float y) := by
  have converted : Inexact.ofRat n = .ok (.real y) := inexact_ofRat? nearest
  have added : (Value.float x).add (.int n) = (Value.float x).add (.float y) := by
    simp [add, Rules.combine, converted]
  have subtracted : (Value.int n).sub (.float x) = (Value.float y).sub (.float x) := by
    simp [sub, Rules.combine, converted]
  rw [halve, halve, added, subtracted]

/-- A rational that is too large for a double has no sum with one. -/
theorem halve_ofRat_float_of_large (large : overflowThreshold ≤ |p|) (y : Float) :
    ∃ fault, halve (ofRat p) (.float y) = .error fault := by
  have unconverted : Inexact.ofRat p = .error .overflow := by
    rw [Inexact.ofRat, ofRat?_eq, if_neg (not_lt.mpr large)]
  have added : (ofRat p).add (.float y) = .error .overflow := by
    rw [ofRat]
    split
    next whole =>
      rw [← Rat.coe_int_num_of_den_eq_one whole] at unconverted
      simp [add, Rules.combine, unconverted]
    next => simp [add, Rules.combine, unconverted]
  exact ⟨.overflow, by rw [halve, added, error_bind]⟩

/-! ## Halves of complex values -/

/-- Whether two doubles are the same or denote the same number. -/
def Alike (x y : Float) : Prop := x = y ∨ ∃ q, toRat? x = some q ∧ toRat? y = some q

theorem Alike.nonneg (alike : Alike x y) (nonneg : Binary64.Nonneg x) : Binary64.Nonneg y := by
  rcases alike with rfl | ⟨q, value, value'⟩
  · exact nonneg
  · rcases nonneg with ⟨p, nonneg, same⟩ | unbounded
    · rw [value, Option.some.injEq] at same
      exact .inl ⟨q, same ▸ nonneg, value'⟩
    · rw [unbounded.toRat?_eq_none] at value
      contradiction

theorem exists_halve_ofFloat (x y : Float) : ∃ z, Alike y z ∧
    halve (.float x) (ofFloat true y) = halve (.float x) (.float z) := by
  rw [ofFloat, if_pos rfl]
  split
  next n whole =>
    rcases exists_ofRat?_of_toInt? whole with ⟨z, nearest, whole'⟩
    exact ⟨z, .inr ⟨n, toInt?_eq_some_iff.mp whole, toInt?_eq_some_iff.mp whole'⟩,
      halve_float_int nearest x⟩
  next => exact ⟨y, .inl rfl, rfl⟩

/-- The halves of a floating complex value are doubles, or integers that are doubles. -/
theorem exists_halves_float (value : toRat? x = some p) (value' : toRat? y = some q) :
    ∃ z, Alike (x * x + y * y).sqrt z ∧ halves (.float x) (.float y) =
      .ok (ofFloat true ((x + z) / 2.0), ofFloat true ((z - x) / 2.0)) := by
  have nonneg := (nonneg_mul_self value).add (nonneg_mul_self value')
  rcases exists_halve_ofFloat x (x * x + y * y).sqrt with ⟨z, alike, halved⟩
  refine ⟨z, alike, ?_⟩
  have opened : halves (.float x) (.float y) = (do
      halve (.float x) (← realRoot (.float (x * x + y * y)))) := rfl
  rw [opened, realRoot_float, if_neg nonneg.not_lt_zero, ok_bind, halved, halve_float]

/-- The size of an exact complex value is the root of a rational. -/
theorem halves_ofRat_eq (p q : Rat) : halves (ofRat p) (ofRat q) = (do
    halve (ofRat p) (← rationalRoot (p * p + q * q))) := by
  rcases squares_compute p q with ⟨_, _, _, reSquared, imSquared, added, number⟩
  have nonneg : 0 ≤ p * p + q * q := add_nonneg (mul_self_nonneg p) (mul_self_nonneg q)
  simp only [halves, reSquared, imSquared, added, ok_bind, realRoot_of_nonneg nonneg number]

/-- Whether a computation ends in two real values of which at most one is below zero. -/
def GivesHalves (outcome : Except Fault (Value × Value)) : Prop :=
  ∃ h k, outcome = .ok (h, k) ∧ h.RealForm ∧ k.RealForm ∧ Halves h k

theorem givesHalves_float (value : toRat? x = some p) (value' : toRat? y = some q) :
    GivesHalves (halves (.float x) (.float y)) := by
  rcases exists_halves_float value value' with ⟨z, alike, computed⟩
  have nonneg := ((nonneg_mul_self value).add (nonneg_mul_self value')).sqrt
  exact ⟨_, _, computed, realForm_ofFloat _, realForm_ofFloat _,
    halves_ofFloat value (alike.nonneg nonneg)⟩

theorem givesHalves_of_rational (nonneg : 0 ≤ t) (joint : t < overflowThreshold ∨
    (IsSquare ((p + t) / 2) ↔ IsSquare ((t - p) / 2))) :
    GivesHalves (halve (ofRat p) (ofRat t)) :=
  ⟨_, _, halve_ofRat p t, .rational _, .rational _, halves_ofRat nonneg joint⟩

/-- A half of the size of an exact complex value is rational, or it is computed in floating point. -/
theorem givesHalves_ofRat (nonreal : q ≠ 0) : GivesHalves (halves (ofRat p) (ofRat q)) ∨
    (∃ fault, halves (ofRat p) (ofRat q) = .error fault) ∧
      (overflowThreshold ≤ |p| ∨ (ofRat (p * p + q * q)).TooLong) := by
  have positive : 0 < p * p + q * q :=
    add_pos_of_nonneg_of_pos (mul_self_nonneg p) (mul_self_pos.mpr nonreal)
  rw [halves_ofRat_eq]
  by_cases square : IsSquare (p * p + q * q)
  · left
    rcases square with ⟨t, norm⟩
    rw [norm, ← abs_mul_abs_self t, rationalRoot_mul_self (abs_nonneg t), ok_bind]
    refine givesHalves_of_rational (abs_nonneg t) (.inr ?_)
    refine isSquare_iff_of_mul (r := q / 2) ?_ (div_ne_zero nonreal two_ne_zero)
    linear_combination (1 / 4) * abs_mul_abs_self t - (1 / 4) * norm
  · rw [rationalRoot_of_not_isSquare positive.le square]
    cases computed : floatRoot (p * p + q * q) with
    | error fault =>
      refine .inr ⟨⟨fault, rfl⟩, .inr (tooLong_ofRat.mpr ?_)⟩
      by_contra! short
      rw [abs_of_pos positive] at short
      rcases floatRoot_of_short positive short with ⟨x, computed', -⟩
      rw [computed] at computed'
      contradiction
    | ok s =>
      have nonneg := nonneg_of_floatRoot positive.le computed
      change GivesHalves (halve (ofRat p) (ofFloat true s)) ∨
        (∃ fault, halve (ofRat p) (ofFloat true s) = .error fault) ∧ _
      rw [ofFloat, if_pos rfl]
      split
      next n whole =>
        have small := (exists_position_of_toRat? (toInt?_eq_some_iff.mp whole)).1
        have above : (Value.int n).IsNonneg := by
          have formed := isNonneg_ofFloat.mpr nonneg
          rwa [ofFloat, if_pos rfl, whole] at formed
        rw [← ofRat_intCast]
        exact .inl (givesHalves_of_rational (Int.cast_nonneg above)
          (.inl ((le_abs_self _).trans_lt small)))
      next =>
        rcases lt_or_ge |p| overflowThreshold with small | large
        · rw [halve_ofRat_float small, halve_float]
          exact .inl ⟨_, _, rfl, realForm_ofFloat _, realForm_ofFloat _,
            halves_ofFloat (toRat?_ofRat small) nonneg⟩
        · exact .inr ⟨halve_ofRat_float_of_large large s, .inl large⟩

end ExactRoots.Value
