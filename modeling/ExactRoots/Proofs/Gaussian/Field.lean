import ExactRoots.Gaussian
import Mathlib.Algebra.Field.Rat
import Mathlib.Algebra.Order.Ring.Rat
import Mathlib.Data.Rat.Cast.CharZero
import Mathlib.Tactic.FieldSimp
import Mathlib.Tactic.Ring

/-!
# The field of Gaussian rationals

The operations on Gaussian rationals satisfy the laws of a field, and the
rationals embed into it.  Identities between exact values can therefore be
proved by the algebra of the library of polynomials over a field.
-/

namespace ExactRoots.Gaussian

@[simp]
theorem re_inv (u : Gaussian) : u⁻¹.re = u.re / u.normSq := rfl

@[simp]
theorem im_inv (u : Gaussian) : u⁻¹.im = -u.im / u.normSq := rfl

@[simp]
theorem re_ofRat (q : Rat) : (ofRat q).re = q := rfl

@[simp]
theorem im_ofRat (q : Rat) : (ofRat q).im = 0 := rfl

/-- The square of the absolute value vanishes only at zero. -/
theorem normSq_ne_zero {u : Gaussian} (nonzero : u ≠ 0) : u.normSq ≠ 0 := by
  intro vanish
  apply nonzero
  have parts : u.re = 0 ∧ u.im = 0 := mul_self_add_mul_self_eq_zero.mp vanish
  exact Gaussian.ext parts.1 parts.2

instance : NatCast Gaussian := ⟨fun n => ofRat n⟩

instance : IntCast Gaussian := ⟨fun n => ofRat n⟩

@[simp]
theorem re_natCast (n : Nat) : (n : Gaussian).re = n := rfl

@[simp]
theorem im_natCast (n : Nat) : (n : Gaussian).im = 0 := rfl

@[simp]
theorem re_intCast (n : Int) : (n : Gaussian).re = n := rfl

@[simp]
theorem im_intCast (n : Int) : (n : Gaussian).im = 0 := rfl

instance : CommRing Gaussian where
  add_assoc _ _ _ := Gaussian.ext (add_assoc _ _ _) (add_assoc _ _ _)
  zero_add _ := Gaussian.ext (zero_add _) (zero_add _)
  add_zero _ := Gaussian.ext (add_zero _) (add_zero _)
  add_comm _ _ := Gaussian.ext (add_comm _ _) (add_comm _ _)
  neg_add_cancel _ := Gaussian.ext (neg_add_cancel _) (neg_add_cancel _)
  sub_eq_add_neg _ _ := Gaussian.ext (sub_eq_add_neg _ _) (sub_eq_add_neg _ _)
  left_distrib _ _ _ := Gaussian.ext (by simp; ring) (by simp; ring)
  right_distrib _ _ _ := Gaussian.ext (by simp; ring) (by simp; ring)
  zero_mul _ := Gaussian.ext (by simp) (by simp)
  mul_zero _ := Gaussian.ext (by simp) (by simp)
  mul_assoc _ _ _ := Gaussian.ext (by simp; ring) (by simp; ring)
  one_mul _ := Gaussian.ext (by simp) (by simp)
  mul_one _ := Gaussian.ext (by simp) (by simp)
  mul_comm _ _ := Gaussian.ext (by simp; ring) (by simp; ring)
  natCast_zero := Gaussian.ext (by simp) (by simp)
  natCast_succ n := Gaussian.ext (by simp) (by simp)
  intCast_ofNat n := Gaussian.ext (by simp) (by simp)
  intCast_negSucc n := Gaussian.ext (by simp [Int.negSucc_eq]) (by simp)
  nsmul := nsmulRec
  zsmul := zsmulRec

instance : Field Gaussian where
  exists_pair_ne := ⟨0, 1, by intro same; simpa using congrArg Gaussian.re same⟩
  mul_inv_cancel u nonzero := by
    have size : u.normSq ≠ 0 := normSq_ne_zero nonzero
    apply Gaussian.ext
    · simp only [re_mul, re_inv, im_inv, re_one]
      field_simp
      simp only [normSq]
      ring
    · simp only [im_mul, re_inv, im_inv, im_one]
      field_simp
      ring
  inv_zero := Gaussian.ext (by simp) (by simp)
  nnqsmul := _
  qsmul := _

instance : CharZero Gaussian where
  cast_injective m n same := by
    have parts : (m : Rat) = n := congrArg Gaussian.re same
    exact_mod_cast parts

@[simp]
theorem ofRat_zero : ofRat 0 = 0 := rfl

theorem ofRat_add (p q : Rat) : ofRat (p + q) = ofRat p + ofRat q :=
  Gaussian.ext rfl (by simp)

theorem ofRat_sub (p q : Rat) : ofRat (p - q) = ofRat p - ofRat q :=
  Gaussian.ext rfl (by simp)

theorem ofRat_neg (q : Rat) : ofRat (-q) = -ofRat q :=
  Gaussian.ext rfl (by simp)

theorem ofRat_mul (p q : Rat) : ofRat (p * q) = ofRat p * ofRat q :=
  Gaussian.ext (by simp) (by simp)

theorem discriminant_ofRat (a b c : Rat) :
    ofRat b * ofRat b - 4 * ofRat a * ofRat c = ofRat (b * b - 4 * a * c) := by
  have four : (4 : Gaussian) = ofRat 4 := rfl
  simp only [four, ofRat_mul, ofRat_sub]

theorem ofRat_div (p q : Rat) : ofRat (p / q) = ofRat p / ofRat q := by
  by_cases zero : q = 0
  · subst zero
    simp
  · rw [eq_div_iff (by intro same; exact zero (congrArg Gaussian.re same)), ← ofRat_mul,
      div_mul_cancel₀ p zero]

theorem div_ofRat (u : Gaussian) (q : Rat) : u / ofRat q = ⟨u.re / q, u.im / q⟩ := by
  by_cases zero : q = 0
  · subst zero
    rw [ofRat_zero, div_zero, div_zero, div_zero]
    rfl
  · rw [div_eq_iff (by intro same; exact zero (congrArg Gaussian.re same))]
    exact Gaussian.ext (by simp [div_mul_cancel₀ _ zero]) (by simp [div_mul_cancel₀ _ zero])

end ExactRoots.Gaussian
