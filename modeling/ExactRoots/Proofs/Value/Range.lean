import ExactRoots.Proofs.Binary64.Magnitude
import ExactRoots.Proofs.Gaussian.Size
import ExactRoots.Proofs.Value.Plain
import ExactRoots.Proofs.Value.SquareRoot

/-!
# Inexact arithmetic in range

While the operands are neither too large nor too small, inexact sums, differences,
quotients and square roots are finite.
-/

namespace ExactRoots

open Outcome Binary64

/-! ## Inexact numbers -/

namespace Inexact

/-- Whether both parts are finite with exponent fields below `k`. -/
structure Below (k : Nat) (a : Inexact) : Prop where
  re : exponentField a.re < k
  im : exponentField a.im < k

variable {k l : Nat} {a b : Inexact}

theorem exponentField_zero : exponentField 0.0 = 0 := exponentField_of_zero (by decide)

theorem below_real {x : Float} (positive : 0 < k) (below : exponentField x < k) :
    (Inexact.real x).Below k :=
  ⟨below, by rwa [Inexact.im, exponentField_zero]⟩

/-- An operation that acts on both parts alike keeps a bound that each part keeps. -/
theorem below_lift {f : Float → Float → Float} (positive : 0 < k)
    (re : exponentField (f a.re b.re) < k) (im : exponentField (f a.im b.im) < k) :
    (lift f (fun p q r s => (f p r, f q s)) a b).Below k := by
  obtain x | ⟨p, q⟩ := a <;> obtain y | ⟨r, s⟩ := b
  case real.real => exact below_real positive re
  all_goals exact ⟨re, im⟩

theorem Below.add (normal : 1 < k) (finite : k + 2 ≤ 2047) (first : a.Below k)
    (second : b.Below k) : (a.add b).Below (k + 2) :=
  below_lift (by omega) (exponentField_add_lt normal finite first.re second.re)
    (exponentField_add_lt normal finite first.im second.im)

theorem Below.sub (normal : 1 < k) (finite : k + 2 ≤ 2047) (first : a.Below k)
    (second : b.Below k) : (a.sub b).Below (k + 2) :=
  below_lift (by omega) (exponentField_sub_lt normal finite first.re second.re)
    (exponentField_sub_lt normal finite first.im second.im)

theorem zero_abs_le_abs {y : Float} (finite : exponentField y < 2047) :
    (0.0 : Float).abs ≤ y.abs := by
  have number : y.abs.isNaN = false := by
    have unfolded : y.abs.isNaN = y.abs.toModel.unpack.isNaN := rfl
    rw [unfolded, unpack_abs, ofFields, if_neg finite.ne]
    split_ifs <;> rfl
  have zero : (0.0 : Float).abs = 0.0 := by decide
  rw [zero]
  exact zero_le_abs number

theorem abs_beq_zero {y : Float} (normal : 0 < exponentField y) (finite : exponentField y < 2047) :
    (y.abs == 0.0) = false := by
  rw [Bool.eq_false_iff]
  intro zero
  rcases beq_zero_iff_unpack.mp zero with ⟨s, unpacked⟩
  rw [unpack_abs, ofFields, if_neg finite.ne, if_neg normal.ne'] at unpacked
  contradiction

/-- Whether quotients of numbers with exponent fields below `k` by those with exponent fields
from `l` on are finite. -/
structure Room (k l : Nat) : Prop where
  normal : 1 < k
  sums : k + 2 ≤ 2047
  positive : 0 < l
  small : l ≤ k
  quotients : k + 1026 ≤ l + 2047

/-- The quotient by a normal double. -/
theorem Below.div? {y : Float} (room : Room k l) (below : a.Below k) (lower : l ≤ exponentField y)
    (upper : exponentField y < 2047) :
    ∃ c, a.div? (.real y) = some c ∧ c.Below (k + 1026 - l) := by
  obtain ⟨normal, sums, positive, small, quotients⟩ := room
  obtain x | ⟨p, q⟩ := a
  case real =>
    have quotient := exponentField_div_lt normal (by omega) (by omega) positive (by omega) below.re
      lower upper
    refine ⟨_, by simp [Inexact.div?, beq_zero_of_normal (positive.trans_le lower)]; rfl, ?_⟩
    exact below_real (by omega) (quotient.trans_le (by omega))
  case complex =>
    let ratio := 0.0 / y
    let scale := y + 0.0 * ratio
    have none : (ratio == 0.0) = true := beq_zero_div (by decide) (by omega) upper
    have nothing : (0.0 * ratio == 0.0) = true := mul_zero (by decide) none
    have scaled : exponentField scale = exponentField y :=
      exponentField_add_zero (by omega) upper nothing
    have first : exponentField p < k := below.re
    have second : exponentField q < k := below.im
    have vanishes : ∀ z, exponentField z < k → exponentField (z * ratio) < k := by
      intro z bounded
      rw [exponentField_of_zero (mul_zero (by omega) none)]
      omega
    have re := exponentField_add_lt normal sums first (vanishes q second)
    have im := exponentField_sub_lt normal sums second (vanishes p first)
    refine ⟨.complex ((p + q * ratio) / scale) ((q - p * ratio) / scale), ?_, ?_, ?_⟩
    · have divided : complexQuotient? p q y 0.0 =
          some ((p + q * ratio) / scale, (q - p * ratio) / scale) := by
        rw [complexQuotient?, if_pos (zero_abs_le_abs upper), if_neg]
        simp [abs_beq_zero (positive.trans_le lower) upper]
      exact congrArg (Option.map fun parts => Inexact.complex parts.1 parts.2) divided
    · exact (exponentField_div_lt (by omega) sums (by omega) positive (by omega) re
        (by omega) (by omega)).trans_le (by omega)
    · exact (exponentField_div_lt (by omega) sums (by omega) positive (by omega) im
        (by omega) (by omega)).trans_le (by omega)

end Inexact

/-! ## Values -/

namespace Value

/-- Whether a value is a rational of so many digits, or inexact and in range. -/
inductive Tame (k d : Nat) : Value → Prop
  | rational {q : Rat} (sized : Sized d q) : Tame k d (ofRat q)
  | inexact {a : Inexact} (below : a.Below k) : Tame k d (.inexact a)

variable {k l d e : Nat} {a : Inexact} {q : Rat}

theorem Tame.mono {v : Value} (tame : Tame k d v) (le : d ≤ e) : Tame k e v := by
  cases tame with
  | rational sized => exact .rational (sized.mono le)
  | inexact below => exact .inexact below

/-- A finite double that is an integer has no more than 309 digits. -/
theorem natAbs_of_toInt? {x : Float} {n : Int} (finite : exponentField x < 2047)
    (whole : toInt? x = some n) : n.natAbs ≤ 10 ^ 309 := by
  rcases dyadic?_of_finite finite with ⟨f, form, small, -⟩
  rw [toInt?, form, Option.bind_some] at whole
  split at whole
  next =>
    obtain rfl := Option.some.inj whole
    rw [f.natAbs_truncate]
    exact (Nat.div_le_self _ _).trans (small.le.trans numeratorLimit_le)
  next => contradiction

theorem tame_ofFloat {x : Float} (below : exponentField x < k) (finite : k ≤ 2047)
    (enough : 309 ≤ d) : Tame k d (ofFloat true x) := by
  rw [ofFloat, if_pos rfl]
  split
  next n whole =>
    rw [← ofRat_intCast]
    exact .rational ((Sized.intCast (natAbs_of_toInt? (by omega) whole)).mono enough)
  next => exact .inexact (Inexact.below_real (by omega) below)

theorem tame_simplest (below : a.Below k) (finite : k ≤ 2047) (enough : 309 ≤ d) :
    Tame k d (Value.inexact a).simplest := by
  obtain x | ⟨re, im⟩ := a
  case real => exact tame_ofFloat below.re finite enough
  case complex =>
    rw [simplest, simplify]
    split
    next => exact tame_ofFloat below.re finite enough
    next => exact .inexact below

theorem inexact_ofRat (small : |q| < overflowThreshold) :
    Inexact.ofRat q = .ok (.real (Binary64.ofRat q)) := by
  rw [Inexact.ofRat, ofRat?_eq, if_pos small]

theorem combine_ofRat_inexact (rules : Rules) (small : |q| < overflowThreshold) :
    rules.combine (ofRat q) (.inexact a) = rules.inexacts (.real (Binary64.ofRat q)) a := by
  rw [ofRat]
  split
  next whole =>
    rw [Rules.combine, Rat.coe_int_num_of_den_eq_one whole, inexact_ofRat small, ok_bind]
  next => rw [Rules.combine, inexact_ofRat small, ok_bind]

theorem combine_inexact_ofRat (rules : Rules) (small : |q| < overflowThreshold) :
    rules.combine (.inexact a) (ofRat q) = rules.inexacts a (.real (Binary64.ofRat q)) := by
  rw [ofRat]
  split
  next whole =>
    rw [Rules.combine, Rat.coe_int_num_of_den_eq_one whole, inexact_ofRat small, ok_bind]
  next => rw [Rules.combine, inexact_ofRat small, ok_bind]

theorem neg_ofRat (q : Rat) : (ofRat q).neg = .ok (ofRat (-q)) := by
  rw [ofRat, ofRat, Rat.neg_den, Rat.neg_num]
  split <;> rfl

theorem add_ofRat_inexact (small : |q| < overflowThreshold) :
    (ofRat q).add (.inexact a) = .ok (.inexact ((Inexact.real (Binary64.ofRat q)).add a)) := by
  have unfolded : (ofRat q).add (.inexact a) = addRules.combine (ofRat q) (.inexact a) := by
    rw [ofRat]
    split <;> rfl
  rw [unfolded, combine_ofRat_inexact addRules small]
  rfl

theorem sub_ofRat_inexact (small : |q| < overflowThreshold) :
    (ofRat q).sub (.inexact a) = .ok (.inexact ((Inexact.real (Binary64.ofRat q)).sub a)) := by
  rw [Value.sub, combine_ofRat_inexact subRules small]
  rfl

/-- Whether a rational of so many digits is neither too large nor too small to divide by. -/
structure Divisor (l e : Nat) (q : Rat) : Prop where
  nonzero : q ≠ 0
  sized : Sized e q
  inside : |q| < overflowThreshold
  lower : l ≤ exponentField (Binary64.ofRat q)

theorem quo_of_tame {v : Value} (room : Inexact.Room k l) (enough : 309 ≤ d) (tame : Tame k d v)
    (divisor : Divisor l e q) :
    ∃ r, v.quo (ofRat q) = .ok r ∧ Tame (k + 1026 - l) (d + e) r := by
  obtain ⟨nonzero, sized, inside, lower⟩ := divisor
  have nonzero' : Gaussian.ofRat q ≠ 0 := fun zero => nonzero (congrArg Gaussian.re zero)
  have finite := exponentField_ofRat_lt inside
  have quotients := room.quotients
  cases tame with
  | @rational p sized' =>
    have divided := quo_of_gaussian? (gaussian?_ofRat p) (gaussian?_ofRat q) nonzero'
    rw [← Gaussian.ofRat_div, ofGaussian_ofRat] at divided
    exact ⟨_, divided, .rational (sized'.div sized)⟩
  | @inexact a below =>
    rcases below.div? room lower finite with ⟨c, divided, below'⟩
    have quotient : Value.div (.inexact a) (ofRat q) = .ok (.inexact c) := by
      rw [Value.div, combine_inexact_ofRat divRules inside]
      simp [divRules, inexactQuotient, divided, Value.ok]
    refine ⟨(Value.inexact c).simplest, ?_, tame_simplest below' (by omega) (by omega)⟩
    simp [quo, isZero_ofRat, nonzero, rational?, quotient]

/-! ## Square roots -/

theorem makeComplex_plain {re im : Value} (plain : re.Plain) :
    Yields Plain (makeComplex re im) := by
  have simple : re.simplest.Plain := (isDecimal_simplify true re).trans plain
  simp only [makeComplex, yields_bind_iff]
  intro zero _
  split
  next => exact yields_ok.mpr simple
  next =>
    split
    next => exact yields_ok.mpr (ofGaussian_plain _).1
    next => simp

theorem rationalRoot_plain (q : Rat) : Yields Plain (rationalRoot q) := by
  rw [rationalRoot]
  split
  next => exact yields_ok.mpr (ofRat_plain _).1
  next =>
    cases floatRoot q with
    | error fault => exact yields_error fault
    | ok x => exact yields_ok.mpr (ofFloat_plain true x).1

/-- The root of a rational is taken on one of the axes. -/
theorem sqrt_ofRat_eq (q : Rat) : (ofRat q).sqrt =
    if q < 0 then (do makeComplex (.int 0) (← rationalRoot (-q))) else rationalRoot q := by
  have real : (ofRat q).isComplex = false := by
    simp [isComplex_of_gaussian? (gaussian?_ofRat q)]
  rw [sqrt, real, if_neg Bool.false_ne_true, realRoot_of_gaussian? (gaussian?_ofRat q)]

theorem sqrt_ofRat_plain (q : Rat) : Yields Plain (ofRat q).sqrt := by
  have zero : (int 0).Plain := rfl
  rw [sqrt_ofRat_eq]
  simp [rationalRoot_plain, makeComplex_plain zero]

/-- The square root of a rational that is not negative. -/
theorem rationalRoot_cases (nonneg : 0 ≤ q) (sized : Sized d q) (inside : |q| < overflowThreshold)
    (normal : 1 < k) (finite : k ≤ 2047) (below : exponentField (Binary64.ofRat q) < k) :
    (∃ p, rationalRoot q = .ok (ofRat p) ∧ Sized d p) ∨
      ∃ x, rationalRoot q = .ok (ofFloat true x) ∧ exponentField x < (k + 1026) / 2 := by
  rw [rationalRoot]
  split
  next m n numRoot denRoot =>
    have num := mul_self_of_squareRoot?_eq_some numRoot
    have den := mul_self_of_squareRoot?_eq_some denRoot
    refine .inl ⟨_, rfl, ?_⟩
    have positive : n ≠ 0 := by
      rintro rfl
      exact q.den_nz den.symm
    rw [Rat.mkRat_eq_div, ← Int.cast_natCast n]
    apply Sized.of_div (Int.natCast_ne_zero.mpr positive)
    · exact ((Nat.le_mul_self m).trans num.le).trans sized.num
    · exact ((Nat.le_mul_self n).trans den.le).trans sized.den
  next =>
    refine .inr ⟨(Binary64.ofRat q).sqrt, ?_, ?_⟩
    · rw [floatRoot, ofRat?_eq, if_pos inside]
      rfl
    · exact exponentField_sqrt_lt normal finite below (sign_ofRat inside nonneg)

/-- Whether a value is exact with parts of so many digits, or inexact and in range. -/
def Rooted (k d : Nat) (v : Value) : Prop :=
  (∃ u : Gaussian, v = ofGaussian u ∧ Sized d u.re ∧ Sized d u.im) ∨
    ∃ a : Inexact, v = .inexact a ∧ a.Below k

theorem sized_zero : Sized d 0 := by
  have none := Sized.intCast (k := d) (n := 0) (Nat.zero_le _)
  rwa [Int.cast_zero] at none

theorem Tame.rooted {v : Value} (tame : Tame k d v) : Rooted k d v := by
  cases tame with
  | @rational p sized =>
    exact .inl ⟨.ofRat p, (ofGaussian_ofRat p).symm, sized, sized_zero⟩
  | inexact below => exact .inr ⟨_, rfl, below⟩

theorem zero_inside : |(0 : Rat)| < overflowThreshold := by
  rw [abs_zero]
  exact zero_lt_one.trans Binary64.one_lt_overflowThreshold

theorem toFloat_zero : (Value.int 0).toFloat = .ok (Binary64.ofRat 0) := by
  rw [toFloat, Int.cast_zero, ofRat?_eq, if_pos zero_inside]

/-- A root is put on the imaginary axis. -/
theorem makeComplex_ofFloat {x : Float} (positive : 0 < k) (finite : k ≤ 2047) (enough : 309 ≤ d)
    (below : exponentField x < k) :
    ∃ r, makeComplex (.int 0) (ofFloat true x) = .ok r ∧ Rooted k d r := by
  cases whole : toInt? x with
  | some n =>
    have same : ofFloat true x = .int n := by simp [ofFloat, whole]
    rw [same]
    refine ⟨_, makeComplex_of_gaussian? (p := 0) (q := n) rfl rfl, .inl ⟨_, rfl, sized_zero, ?_⟩⟩
    exact (Sized.intCast (natAbs_of_toInt? (by omega) whole)).mono enough
  | none =>
    have same : ofFloat true x = .float x := by simp [ofFloat, whole]
    have simple : (Value.float x).simplest = .float x := same
    have zero : (x == 0.0) = false := by
      rw [Bool.eq_false_iff]
      intro zero
      rw [toInt?_of_beq_zero zero] at whole
      contradiction
    rw [same]
    refine ⟨.complex (Binary64.ofRat 0) x, ?_, .inr ⟨_, rfl, ?_, below⟩⟩
    · have left : (Value.int 0).simplest = .int 0 := rfl
      have right : (Value.float x).toFloat = .ok x := rfl
      simp [makeComplex, simple, isZero_float, zero, rational?, left, right, toFloat_zero]
    · change exponentField (Binary64.ofRat 0) < k
      rw [exponentField_ofRat zero_inside]
      exact positive

/-- The square root of a rational is exact or inexact, and in range. -/
theorem sqrt_ofRat (sized : Sized d q) (inside : |q| < overflowThreshold) (normal : 1 < k)
    (finite : k ≤ 2047) (enough : 309 ≤ d) (below : exponentField (Binary64.ofRat |q|) < k) :
    ∃ r, (ofRat q).sqrt = .ok r ∧ Rooted ((k + 1026) / 2) d r := by
  have room : (k + 1026) / 2 ≤ 2047 := by omega
  rw [sqrt_ofRat_eq]
  split
  next negative =>
    rw [abs_of_neg negative] at below
    rw [← abs_neg] at inside
    rcases rationalRoot_cases (neg_nonneg.mpr negative.le) sized.neg inside normal finite below with
      ⟨p, root, sized⟩ | ⟨x, root, below⟩
    · rw [root, ok_bind]
      exact ⟨_, makeComplex_of_gaussian? (p := 0) rfl (gaussian?_ofRat p),
        .inl ⟨_, rfl, sized_zero, sized⟩⟩
    · rw [root, ok_bind]
      exact makeComplex_ofFloat (by omega) room enough below
  next nonneg =>
    have nonneg := Rat.not_lt.mp nonneg
    rw [abs_of_nonneg nonneg] at below
    rcases rationalRoot_cases nonneg sized inside normal finite below with
      ⟨p, root, sized⟩ | ⟨x, root, below⟩
    · exact ⟨_, root, (Tame.rational sized).rooted⟩
    · exact ⟨_, root, (tame_ofFloat below room enough).rooted⟩

end Value

end ExactRoots
