import ExactRoots.Proofs.Binary64.Zero
import ExactRoots.Proofs.Inexact
import ExactRoots.Proofs.Value.Kinds

/-!
# Inexact operands

Doubles, floating complex numbers and the integers that are not too large for a
double are added and subtracted without a fault, and they are divided by any of
them that is real and not zero.
-/

namespace ExactRoots

open Outcome Binary64

namespace Inexact

/-- Complex division has a value unless both parts of the divisor are zero. -/
theorem exists_complexQuotient? (p q : Float) {r s : Float}
    (nonzero : ¬ ((r == 0.0) = true ∧ (s == 0.0) = true)) :
    ∃ parts, complexQuotient? p q r s = some parts := by
  unfold complexQuotient?
  split_ifs with larger zero
  · exact absurd ⟨beq_zero_of_abs zero, beq_zero_of_abs_le zero larger⟩ nonzero
  · exact ⟨_, rfl⟩
  · exact ⟨_, rfl⟩
  · exact ⟨_, rfl⟩

/-- Division by a number that is not zero has a value. -/
theorem exists_div?_of_isZero (a : Inexact) {b : Inexact} (nonzero : b.isZero = false) :
    ∃ c, a.div? b = some c := by
  rw [isZero, Bool.and_eq_false_iff] at nonzero
  have parts : ¬ ((b.re == 0.0) = true ∧ (b.im == 0.0) = true) := by
    rintro ⟨reZero, imZero⟩
    rw [reZero, imZero] at nonzero
    simp at nonzero
  rcases exists_complexQuotient? a.re a.im parts with ⟨quotient, divided⟩
  unfold div?
  split
  next x y =>
    have zeroPart : (Inexact.real y).im = 0.0 := rfl
    have number : (y == 0.0) = false := by
      rw [Bool.eq_false_iff]
      intro zero
      exact parts ⟨zero, by rw [zeroPart]; decide⟩
    exact ⟨_, by rw [if_neg (Bool.not_eq_true _ ▸ number)]⟩
  next => exact ⟨_, by rw [divided, Option.map_some]⟩

/-- Division by a double that is not zero has a value. -/
theorem exists_div? (a : Inexact) {y : Float} (nonzero : (y == 0.0) = false) :
    ∃ b, a.div? (.real y) = some b := by
  apply exists_div?_of_isZero
  rw [isZero, Bool.and_eq_false_iff]
  exact .inl nonzero

/-- A finite number differs from an equal one by zero. -/
theorem isZero_sub_of_beq {a b : Inexact} (same : a.beq b = true) (finite : b.isFinite = true) :
    (a.sub b).isZero = true := by
  have numbers := isNaN_of_isFinite finite
  have bounded := isInf_of_isFinite finite
  rcases exists_toRat? numbers.1 bounded.1 with ⟨p, re⟩
  rcases exists_toRat? numbers.2 bounded.2 with ⟨q, im⟩
  rw [beq, Bool.and_eq_true] at same
  have vanishes : ((0.0 : Float) == 0.0) = true := by decide
  have reZero := beq_zero_sub_of_beq same.1 re
  have imZero := beq_zero_sub_of_beq same.2 im
  rw [isZero, Bool.and_eq_true]
  cases a <;> cases b
  case real.real => exact ⟨reZero, vanishes⟩
  all_goals exact ⟨reZero, imZero⟩

/-- A number is zero if twice it is. -/
theorem isZero_of_mul_two {a : Inexact} (zero : (a.mul (.real 2.0)).isZero = true) :
    a.isZero = true := by
  have vanishes : ((0.0 : Float) == 0.0) = true := by decide
  rw [isZero, Bool.and_eq_true] at zero ⊢
  rcases zero with ⟨reZero, imZero⟩
  obtain x | ⟨p, q⟩ := a
  · exact ⟨beq_zero_of_mul_two reZero, vanishes⟩
  · have reZero : (p * 2.0 - q * 0.0 == 0.0) = true := reZero
    have imZero : (p * 0.0 + q * 2.0 == 0.0) = true := imZero
    -- a part that is infinite or NaN spoils the sum that it is in
    have finite : toRat? p ≠ none ∧ toRat? q ≠ none := by
      constructor
      · intro special
        have product := toRat?_mul_of_none (y := 2.0) special
        exact exists_toRat?_of_beq_zero reZero (toRat?_sub_of_none (.inl product))
      · intro special
        have product := toRat?_mul_of_none (y := 2.0) special
        exact exists_toRat?_of_beq_zero imZero (toRat?_add_of_none (.inr product))
    rcases Option.ne_none_iff_exists'.mp finite.1 with ⟨m, value⟩
    rcases Option.ne_none_iff_exists'.mp finite.2 with ⟨n, value'⟩
    have left := Binary64.mul_zero (exponentField_of_toRat? value) vanishes
    have right := Binary64.mul_zero (exponentField_of_toRat? value') vanishes
    constructor
    · exact beq_zero_of_mul_two (beq_zero_of_sub_zero right reZero)
    · exact beq_zero_of_mul_two (beq_zero_of_zero_add left imZero)

end Inexact

namespace Value

/-- A rational has a double unless it is too large. -/
theorem toFloat_ofRat (q : Rat) : (ofRat q).toFloat =
    if |q| < overflowThreshold then .ok (Binary64.ofRat q) else .error .overflow := by
  have fraction : (ofRat q).toFloat = (frac q).toFloat := by
    rw [ofRat]
    split
    next whole =>
      conv_rhs => rw [← Rat.coe_int_num_of_den_eq_one whole]
      rfl
    next => rfl
  rw [fraction, toFloat, ofRat?_eq]
  by_cases range : |q| < overflowThreshold
  · rw [if_pos range, if_pos range]
  · rw [if_neg range, if_neg range]

/-- Whether a value is inexact or an integer that is not too large for a double. -/
def HasDouble : Value → Prop
  | .int n => ∃ x, ofRat? n = some x
  | .inexact _ => True
  | _ => False

theorem HasDouble.cases {v : Value} (double : v.HasDouble) :
    (∃ n x, v = int n ∧ ofRat? n = some x) ∨ ∃ x, v = inexact x := by
  cases v with
  | int n =>
    rcases double with ⟨x, nearest⟩
    exact .inl ⟨n, x, rfl, nearest⟩
  | inexact x => exact .inr ⟨x, rfl⟩
  | _ => exact double.elim

theorem HasDouble.plainNumber {v : Value} (double : v.HasDouble) : v.PlainNumber := by
  rcases double.cases with ⟨n, x, rfl, -⟩ | ⟨x, rfl⟩
  · exact plainNumber_int n
  · exact plainNumber_inexact x

theorem hasDouble_ofFloat (x : Float) : (ofFloat true x).HasDouble := by
  rw [ofFloat, if_pos rfl]
  split
  next n whole =>
    rcases exists_ofRat?_of_toInt? whole with ⟨y, nearest, -⟩
    exact ⟨y, nearest⟩
  next => trivial

/-- The simplest form of an inexact number is inexact or an integer that is a double. -/
theorem hasDouble_simplest (x : Inexact) : (inexact x).simplest.HasDouble := by
  obtain x | ⟨re, im⟩ := x
  · exact hasDouble_ofFloat x
  · rw [simplest, simplify]
    split
    · exact hasDouble_ofFloat re
    · trivial

theorem inexact_ofRat? {q : Rat} {x : Float} (nearest : ofRat? q = some x) :
    Inexact.ofRat q = .ok (.real x) := by
  rw [Inexact.ofRat, nearest]

/-- An integer that is not zero has a double that is not zero. -/
theorem beq_zero_of_ofRat? {n : Int} {x : Float} (nonzero : n ≠ 0)
    (nearest : ofRat? n = some x) : (x == 0.0) = false := by
  rw [Bool.eq_false_iff]
  intro zero
  rw [ofRat?_eq] at nearest
  split at nearest
  next =>
    rw [← Option.some.inj nearest, ofRat_beq_zero_iff] at zero
    have whole : (1 : Rat) ≤ |(n : Rat)| := by exact_mod_cast Int.one_le_abs nonzero
    have tiny : (2 : Rat) ^ (-1075 : Int) < 1 := zpow_lt_one_of_neg₀ (by norm_num) (by norm_num)
    exact absurd (whole.trans zero) (not_le.mpr tiny)
  next => contradiction

section Operations

variable {v w : Value} {x : Inexact}

theorem combine_hasDouble (rules : Rules) (double : v.HasDouble) :
    ∃ y, rules.combine v (inexact x) = rules.inexacts y x := by
  rcases double.cases with ⟨n, y, rfl, nearest⟩ | ⟨y, rfl⟩
  · exact ⟨.real y, by rw [Rules.combine, inexact_ofRat? nearest, ok_bind]⟩
  · exact ⟨y, rfl⟩

theorem exists_add_inexact (double : v.HasDouble) : ∃ y, v.add (inexact x) = .ok (inexact y) := by
  rw [add_eq_combine double.plainNumber.number]
  rcases combine_hasDouble addRules double with ⟨y, combined⟩
  exact ⟨_, combined⟩

theorem exists_sub_inexact (double : v.HasDouble) : ∃ y, v.sub (inexact x) = .ok (inexact y) := by
  rcases combine_hasDouble subRules double with ⟨y, combined⟩
  exact ⟨_, combined⟩

theorem exists_inexactQuotient (x : Inexact) {y : Float} (nonzero : (y == 0.0) = false) :
    ∃ z, inexactQuotient x (.real y) = .ok (inexact z) := by
  rcases x.exists_div? nonzero with ⟨z, divided⟩
  exact ⟨z, by rw [inexactQuotient, divided]; rfl⟩

/-- Division by a real number that is not zero has a value. -/
theorem exists_quo (left : v.HasDouble) (right : w.HasDouble) (real : ∀ re im, w ≠ complex re im)
    (nonzero : w.isZero = .ok false) : ∃ r, v.quo w = .ok r := by
  have quotient : (∃ r, v.div w = .ok r) ∨ v.IsRational ∧ w.IsRational := by
    rcases right.cases with ⟨n, y, rfl, nearest⟩ | ⟨y | ⟨re, im⟩, rfl⟩
    · rw [isZero, Except.ok.injEq, beq_eq_false_iff_ne] at nonzero
      rcases left.cases with ⟨m, x, rfl, -⟩ | ⟨x, rfl⟩
      · exact .inr ⟨isRational_int m, isRational_int n⟩
      · rcases exists_inexactQuotient x (beq_zero_of_ofRat? nonzero nearest) with ⟨z, divided⟩
        exact .inl ⟨_, by rw [div, Rules.combine, inexact_ofRat? nearest, ok_bind]; exact divided⟩
    · rw [isZero_float, Except.ok.injEq] at nonzero
      rcases combine_hasDouble (x := .real y) divRules left with ⟨x, combined⟩
      rcases exists_inexactQuotient x nonzero with ⟨z, divided⟩
      exact .inl ⟨_, combined.trans divided⟩
    · exact absurd rfl (real re im)
  rw [quo, nonzero, ok_bind, if_neg Bool.false_ne_true]
  split
  next => exact ⟨_, rfl⟩
  next notRational =>
    rcases quotient with ⟨r, divided⟩ | ⟨⟨p, rational⟩, q, rational'⟩
    · exact ⟨r.simplest, by rw [divided, ok_bind, pure_eq_ok]⟩
    · exact absurd rational' (notRational p q rational)

end Operations

end Value

end ExactRoots
