import ExactRoots.Value.Recovery
import Mathlib.Algebra.Order.Field.Basic
import Mathlib.Data.Rat.Cast.Order
import Mathlib.Tactic.FieldSimp
import Mathlib.Tactic.Linarith
import Mathlib.Tactic.LinearCombination
import Mathlib.Tactic.Positivity
import Mathlib.Tactic.Ring

/-!
# Nearest fractions

The fraction that replaces a rational has a denominator within the bound, and no
other such fraction is nearer.  The last convergents of the continued fraction
are adjacent fractions around the rational, and whatever lies between two
adjacent fractions has at least the sum of their denominators.
-/

namespace ExactRoots

/-! ## Adjacent fractions -/

/-- Fractions with denominators up to a bound are equal if they are closer than the
inverse square of the bound. -/
theorem eq_of_den_le_of_close {bound : Nat} {p r : Rat} (pSmall : p.den ≤ bound)
    (rSmall : r.den ≤ bound) (close : |p - r| * bound ^ 2 < 1) : p = r := by
  by_contra distinct
  have pDen : (0 : Rat) < p.den := Nat.cast_pos.mpr p.den_pos
  have rDen : (0 : Rat) < r.den := Nat.cast_pos.mpr r.den_pos
  have cross : (p - r) * (p.den * r.den) = (p.num * r.den - r.num * p.den : Int) := by
    push_cast
    linear_combination (r.den : Rat) * p.mul_den_eq_num - (p.den : Rat) * r.mul_den_eq_num
  have nonzero : (p.num * r.den - r.num * p.den : Int) ≠ 0 := by
    intro zero
    rw [zero, Int.cast_zero] at cross
    rcases mul_eq_zero.mp cross with same | vanishes
    · exact distinct (sub_eq_zero.mp same)
    · exact (mul_pos pDen rDen).ne' vanishes
  have dens : (p.den * r.den : Rat) ≤ bound ^ 2 := by
    rw [sq]
    exact_mod_cast Nat.mul_le_mul pSmall rSmall
  have apart : 1 ≤ |p - r| * bound ^ 2 := by
    calc (1 : Rat) ≤ |((p.num * r.den - r.num * p.den : Int) : Rat)| := by
          exact_mod_cast Int.one_le_abs nonzero
      _ = |p - r| * (p.den * r.den) := by
          rw [← cross, abs_mul, abs_of_pos (mul_pos pDen rDen)]
      _ ≤ |p - r| * bound ^ 2 := mul_le_mul_of_nonneg_left dens (abs_nonneg _)
  exact absurd close (not_lt.mpr apart)

/-- A fraction strictly between the adjacent ones `p / q` and `p' / q'` has a denominator
of at least `q + q'`. -/
theorem add_le_of_between {p q p' q' u v : Int} (adjacent : p' * q - p * q' = 1)
    (nonneg : 0 ≤ q) (nonneg' : 0 ≤ q') (low : p * v < u * q) (high : u * q' < p' * v) :
    q + q' ≤ v := by
  have combination : v = q * (p' * v - u * q') + q' * (u * q - p * v) := by
    linear_combination (-v) * adjacent
  have first : q * 1 ≤ q * (p' * v - u * q') := mul_le_mul_of_nonneg_left (by omega) nonneg
  have second : q' * 1 ≤ q' * (u * q - p * v) := mul_le_mul_of_nonneg_left (by omega) nonneg'
  omega

theorem le_intDiv_iff {x : Rat} {p q : Int} (positive : 0 < q) :
    x ≤ (p / q : Rat) ↔ x.num * q ≤ p * x.den := by
  have den : (0 : Rat) < x.den := Nat.cast_pos.mpr x.den_pos
  conv_lhs => rw [← Rat.num_div_den x]
  rw [div_le_div_iff₀ den (Int.cast_pos.mpr positive)]
  exact_mod_cast Iff.rfl

theorem intDiv_le_iff {x : Rat} {p q : Int} (positive : 0 < q) :
    (p / q : Rat) ≤ x ↔ p * x.den ≤ x.num * q := by
  have den : (0 : Rat) < x.den := Nat.cast_pos.mpr x.den_pos
  conv_lhs => rw [← Rat.num_div_den x]
  rw [div_le_div_iff₀ (Int.cast_pos.mpr positive) den]
  exact_mod_cast Iff.rfl

/-- Among the fractions with denominators below `q + q'`, one of the adjacent ones around
a number is nearest to it. -/
theorem nearest_of_adjacent {p q p' q' : Int} {x r : Rat} (adjacent : p' * q - p * q' = 1)
    (positive : 0 < q) (positive' : 0 < q') (low : (p / q : Rat) ≤ x) (high : x ≤ (p' / q' : Rat))
    (small : (r.den : Int) < q + q') :
    |(p / q : Rat) - x| ≤ |r - x| ∨ |(p' / q' : Rat) - x| ≤ |r - x| := by
  have outside : r ≤ (p / q : Rat) ∨ (p' / q' : Rat) ≤ r := by
    by_contra inside
    rw [le_intDiv_iff positive, intDiv_le_iff positive', not_or, not_le, not_le] at inside
    have := add_le_of_between adjacent positive.le positive'.le inside.1 inside.2
    omega
  rcases outside with below | above
  · left
    rw [abs_of_nonpos (sub_nonpos.mpr low), abs_of_nonpos (sub_nonpos.mpr (below.trans low))]
    linarith
  · right
    rw [abs_of_nonneg (sub_nonneg.mpr high), abs_of_nonneg (sub_nonneg.mpr (high.trans above))]
    linarith

/-- Whether adjacent fractions enclose a number, have denominators within a bound, and
leave no room for another such fraction between them. -/
structure Encloses (bound : Int) (x : Rat) (p q p' q' : Int) : Prop where
  pos : 0 < q
  pos' : 0 < q'
  le : q ≤ bound
  le' : q' ≤ bound
  full : bound < q + q'
  between : (p' * q - p * q' = 1 ∧ (p / q : Rat) ≤ x ∧ x ≤ (p' / q' : Rat)) ∨
    (p * q' - p' * q = 1 ∧ (p' / q' : Rat) ≤ x ∧ x ≤ (p / q : Rat))

theorem Encloses.nearest {bound p q p' q' : Int} {x r : Rat}
    (encloses : Encloses bound x p q p' q') (small : (r.den : Int) ≤ bound) :
    |(p / q : Rat) - x| ≤ |r - x| ∨ |(p' / q' : Rat) - x| ≤ |r - x| := by
  have full := encloses.full
  rcases encloses.between with ⟨adjacent, low, high⟩ | ⟨adjacent, low, high⟩
  · exact nearest_of_adjacent adjacent encloses.pos encloses.pos' low high (by omega)
  · exact (nearest_of_adjacent adjacent encloses.pos' encloses.pos low high (by omega)).symm

/-! ## Convergents -/

namespace Convergents

/-- What holds of the convergents of `q` where the rest of its continued fraction is that
of `num / den`. -/
structure Expands (c : Convergents) (bound : Int) (q : Rat) (num : Int) (den : Nat) : Prop where
  num_eq : c.p₁ * num + c.p₀ * den = q.num
  den_eq : c.q₁ * num + c.q₀ * den = q.den
  adjacent : c.p₁ * c.q₀ - c.p₀ * c.q₁ = 1 ∨ c.p₁ * c.q₀ - c.p₀ * c.q₁ = -1
  q₀_nonneg : 0 ≤ c.q₀
  q₁_nonneg : 0 ≤ c.q₁
  q₀_le : c.q₀ ≤ bound
  q₁_le : c.q₁ ≤ bound
  -- only the first quotient may be negative, and no denominator depends on it
  unsigned : c.q₁ = 0 ∨ 0 ≤ num

theorem expands_start {bound : Int} (positive : 1 ≤ bound) (q : Rat) :
    Expands ⟨0, 1, 1, 0⟩ bound q q.num q.den := by
  constructor <;> simp <;> omega

section Step

variable {c : Convergents} {bound : Int} {q : Rat} {num : Int} {den : Nat}
  (expands : c.Expands bound q num den)

include expands

/-- One more convergent. -/
theorem Expands.next (positive : 0 < den) (within : c.q₀ + num.fdiv den * c.q₁ ≤ bound) :
    Expands ⟨c.p₁, c.q₁, c.p₀ + num.fdiv den * c.p₁, c.q₀ + num.fdiv den * c.q₁⟩
      bound q den (num - num.fdiv den * den).toNat := by
  have denPos : (0 : Int) < den := Int.natCast_pos.mpr positive
  have floor : num.fdiv den = num / den := Int.fdiv_eq_ediv_of_nonneg num denPos.le
  have rest : ((num - num.fdiv den * den).toNat : Int) = num - num.fdiv den * den := by
    apply Int.toNat_of_nonneg
    rw [floor, sub_nonneg]
    exact Int.ediv_mul_le num denPos.ne'
  constructor
  case num_eq =>
    rw [rest]
    linear_combination expands.num_eq
  case den_eq =>
    rw [rest]
    linear_combination expands.den_eq
  case adjacent =>
    rcases expands.adjacent with up | down
    · right
      linear_combination -up
    · left
      linear_combination -down
  case q₀_nonneg => exact expands.q₁_nonneg
  case q₁_nonneg =>
    rcases expands.unsigned with zero | nonneg
    · simpa [zero] using expands.q₀_nonneg
    · have quotient : 0 ≤ num.fdiv den := by
        rw [floor]
        exact Int.ediv_nonneg nonneg denPos.le
      exact add_nonneg expands.q₀_nonneg (mul_nonneg quotient expands.q₁_nonneg)
  case q₀_le => exact expands.q₁_le
  case q₁_le => exact within
  case unsigned => exact .inr denPos.le

/-- The continued fraction does not end before a denominator exceeds the bound. -/
theorem Expands.den_pos (large : bound < q.den) : 0 < den := by
  rcases Nat.eq_zero_or_pos den with rfl | positive
  · have numEq := expands.num_eq
    have denEq := expands.den_eq
    rw [Nat.cast_zero, mul_zero, add_zero] at numEq denEq
    have common : num.natAbs ∣ Nat.gcd q.num.natAbs q.den := by
      apply Nat.dvd_gcd
      · exact Int.natAbs_dvd_natAbs.mpr ⟨c.p₁, by rw [← numEq, mul_comm]⟩
      · exact Int.natCast_dvd_natCast.mp (by simpa using ⟨c.q₁, by rw [← denEq, mul_comm]⟩)
    rw [q.reduced, Nat.dvd_one] at common
    have nonneg := expands.q₁_nonneg
    have bounded := expands.q₁_le
    rcases Int.natAbs_eq_iff.mp common with rfl | rfl <;> omega
  · exact positive

/-- Where the next convergent has too large a denominator, the last one and the last
fraction within the bound on the way to the next one enclose the number. -/
theorem Expands.encloses (large : bound < q.den) (last : bound < c.q₀ + num.fdiv den * c.q₁)
    {k : Int} (count : k = (bound - c.q₀).fdiv c.q₁) :
    Encloses bound q (c.p₀ + k * c.p₁) (c.q₀ + k * c.q₁) c.p₁ c.q₁ := by
  have denPos : (0 : Int) < den := Int.natCast_pos.mpr (expands.den_pos large)
  have q₀_le := expands.q₀_le
  have q₁_le := expands.q₁_le
  have q₁_pos : 0 < c.q₁ := by
    apply lt_of_le_of_ne expands.q₁_nonneg
    intro zero
    rw [← zero, mul_zero, add_zero] at last
    omega
  have floor : num.fdiv den * den ≤ num := by
    rw [Int.fdiv_eq_ediv_of_nonneg num denPos.le]
    exact Int.ediv_mul_le num denPos.ne'
  rw [Int.fdiv_eq_ediv_of_nonneg _ q₁_pos.le] at count
  have lower : k * c.q₁ ≤ bound - c.q₀ := count ▸ Int.ediv_mul_le _ q₁_pos.ne'
  have upper : bound - c.q₀ < k * c.q₁ + c.q₁ := by
    have next := Int.lt_ediv_add_one_mul_self (bound - c.q₀) q₁_pos
    rwa [← count, add_mul, one_mul] at next
  have fewer : k < num.fdiv den := by
    by_contra more
    have := mul_le_mul_of_nonneg_right (not_lt.mp more) q₁_pos.le
    omega
  have rest : 0 ≤ num - k * den := by
    have := mul_le_mul_of_nonneg_right fewer.le denPos.le
    omega
  have first_pos : 0 < c.q₀ + k * c.q₁ := by omega
  refine ⟨first_pos, q₁_pos, by omega, q₁_le, by omega, ?_⟩
  rw [le_intDiv_iff q₁_pos, intDiv_le_iff first_pos, le_intDiv_iff first_pos,
    intDiv_le_iff q₁_pos, ← expands.num_eq, ← expands.den_eq]
  -- the distances to both fractions have the sign by which the convergents are adjacent
  have toFirst : (c.p₁ * num + c.p₀ * den) * (c.q₀ + k * c.q₁) -
      (c.p₀ + k * c.p₁) * (c.q₁ * num + c.q₀ * den) =
        (c.p₁ * c.q₀ - c.p₀ * c.q₁) * (num - k * den) := by ring
  have toSecond : c.p₁ * (c.q₁ * num + c.q₀ * den) - (c.p₁ * num + c.p₀ * den) * c.q₁ =
      (c.p₁ * c.q₀ - c.p₀ * c.q₁) * den := by ring
  rcases expands.adjacent with up | down
  · rw [up, one_mul] at toFirst toSecond
    exact .inl ⟨by linear_combination up, by omega, by omega⟩
  · rw [down, neg_one_mul] at toFirst toSecond
    exact .inr ⟨by linear_combination -down, by omega, by omega⟩

end Step

/-- The convergents are extended until the next denominator exceeds the bound. -/
theorem extend_expands {c : Convergents} {bound : Int} {q : Rat} {num : Int} {den : Nat}
    (expands : c.Expands bound q num den) (large : bound < q.den) :
    ∃ num' den', (c.extend bound num den).Expands bound q num' den' ∧
      bound < (c.extend bound num den).q₀ + num'.fdiv den' * (c.extend bound num den).q₁ := by
  fun_induction extend bound c num den with
  | case1 c num => exact absurd (expands.den_pos large) (Nat.lt_irrefl 0)
  | case2 c num den positive a q₂ beyond => exact ⟨num, den, expands, beyond⟩
  | case3 c num den positive a q₂ within ih =>
    exact ih (expands.next (Nat.pos_of_ne_zero positive) (not_lt.mp within))

end Convergents

/-! ## Replacing a rational -/

theorem rat_abs_eq (q : Rat) : q.abs = |q| := by
  unfold Rat.abs
  split
  next nonneg => rw [abs_of_nonneg nonneg]
  next negative => rw [abs_of_neg (not_le.mp negative)]

theorem den_intDiv_le {bound p q : Int} (positive : 0 < q) (small : q ≤ bound) :
    ((p / q : Rat).den : Int) ≤ bound := by
  rw [← Rat.divInt_eq_div]
  exact (Int.le_of_dvd positive (Rat.den_dvd p q)).trans small

/-- The fraction that replaces a rational has a denominator within the bound, and no such
fraction is nearer. -/
theorem limitDenominator_nearest {bound : Nat} (positive : 1 ≤ bound) (q : Rat) :
    (limitDenominator bound q).den ≤ bound ∧
      ∀ r : Rat, r.den ≤ bound → |limitDenominator bound q - q| ≤ |r - q| := by
  unfold limitDenominator
  split
  next small => exact ⟨small, fun r _ => by simp⟩
  next large =>
    have start : Convergents.Expands ⟨0, 1, 1, 0⟩ bound q q.num q.den :=
      Convergents.expands_start (by omega) q
    rcases Convergents.extend_expands start (by omega) with ⟨num, den, expands, last⟩
    have encloses := expands.encloses (by omega) last rfl
    simp only [Rat.divInt_eq_div, rat_abs_eq]
    split
    next nearer =>
      refine ⟨Int.ofNat_le.mp (den_intDiv_le encloses.pos' encloses.le'), fun r small => ?_⟩
      rcases encloses.nearest (Int.ofNat_le.mpr small) with first | second
      · exact nearer.trans first
      · exact second
    next farther =>
      refine ⟨Int.ofNat_le.mp (den_intDiv_le encloses.pos encloses.le), fun r small => ?_⟩
      rcases encloses.nearest (Int.ofNat_le.mpr small) with first | second
      · exact first
      · exact (not_le.mp farther).le.trans second

end ExactRoots
