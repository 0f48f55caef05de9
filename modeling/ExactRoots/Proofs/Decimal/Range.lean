import ExactRoots.Decimal.Arithmetic
import ExactRoots.Proofs.Natural.DecimalLength
import ExactRoots.Proofs.Natural.Rounding
import ExactRoots.Proofs.Value.SquareRoot

/-!
# Decimals in range

The operations on finite decimals give finite ones whose last digit is not below the
least exponent.  No number in this range is rounded to zero, and the square root of
one that is not zero is not zero.
-/

namespace ExactRoots.Decimal

variable {keep m : Nat} {e : Int} {s : Bool} {d : Decimal}

theorem leastExponent_eq (keep : Nat) : leastExponent keep = -maxExponent - keep + 1 := rfl

/-- A number that is not zero stays as it is, or some of its last digits are cut off, and one more
where rounding adds a digit. -/
theorem fit_cases (nonzero : m ≠ 0) (fitted : fit keep s m e = .ok d) :
    (d = .finite s m e ∧ leastExponent keep ≤ e) ∨ ∃ cut : Nat, 0 < cut ∧
      e + cut = max (e + decimalLength m - keep) (leastExponent keep) ∧
      (d = .finite s (roundHalfEven m (10 ^ cut)) (e + cut) ∨
        keep < decimalLength (roundHalfEven m (10 ^ cut)) ∧
          d = .finite s (roundHalfEven m (10 ^ cut) / 10) (e + cut + 1)) := by
  rw [fit, if_neg nonzero] at fitted
  extract_lets lowest unit rounded at fitted
  split at fitted
  next => contradiction
  next =>
    split at fitted
    next less =>
      refine .inr ⟨(unit - e).toNat, by omega, by omega, ?_⟩
      rw [show e + ((unit - e).toNat : Int) = unit by omega]
      by_cases fits : decimalLength rounded ≤ keep
      · rw [if_pos fits] at fitted
        dsimp only at fitted
        split at fitted
        next => contradiction
        next =>
          cases fitted
          exact .inl rfl
      · rw [if_neg fits] at fitted
        dsimp only at fitted
        split at fitted
        next => contradiction
        next =>
          cases fitted
          exact .inr ⟨not_le.mp fits, rfl⟩
    next inside =>
      cases fitted
      exact .inl ⟨rfl, (le_max_right ..).trans (not_lt.mp inside)⟩

/-- What `fit` gives is finite and not below the least exponent. -/
theorem exists_of_fit (fitted : fit keep s m e = .ok d) :
    ∃ k u, d = .finite s k u ∧ leastExponent keep ≤ u := by
  by_cases zero : m = 0
  · have least := leastExponent_eq keep
    have most : 1 ≤ maxExponent := by decide
    rw [fit, if_pos zero] at fitted
    cases fitted
    exact ⟨0, _, rfl, by omega⟩
  · rcases fit_cases zero fitted with ⟨rfl, least⟩ | ⟨cut, -, unit, rfl | ⟨-, rfl⟩⟩
    · exact ⟨m, e, rfl, least⟩
    · exact ⟨_, _, rfl, by omega⟩
    · exact ⟨_, _, rfl, by omega⟩

/-- A number in range is not rounded to zero. -/
theorem ne_zero_of_fit {k : Nat} {u : Int} {t : Bool} (some : 0 < keep) (nonzero : m ≠ 0)
    (least : leastExponent keep ≤ e) (fitted : fit keep s m e = .ok (.finite t k u)) : k ≠ 0 := by
  rcases fit_cases nonzero fitted with ⟨same, -⟩ | ⟨cut, cuts, unit, rounded⟩
  · cases same
    exact nonzero
  · have digits : decimalLength m - 1 = keep - 1 + cut := by omega
    have large := ten_pow_le_of_decimalLength (Nat.pos_of_ne_zero nonzero)
    rw [digits, pow_add] at large
    rcases roundHalfEven_bounds m (show 0 < 10 ^ cut by positivity) with ⟨upper, -⟩
    have positive : roundHalfEven m (10 ^ cut) ≠ 0 := by
      intro zero
      have one : 1 ≤ 10 ^ (keep - 1) := Nat.one_le_pow _ _ (by norm_num)
      have whole := Nat.mul_le_mul_right (10 ^ cut) one
      rw [zero] at upper
      omega
    rcases rounded with same | ⟨long, same⟩
    · cases same
      exact positive
    · cases same
      have many := ten_pow_le_of_decimalLength (Nat.pos_of_ne_zero positive)
      have ten : 10 ^ 1 ≤ 10 ^ (decimalLength (roundHalfEven m (10 ^ cut)) - 1) :=
        Nat.pow_le_pow_right (by norm_num) (by omega)
      omega

/-- The root to at least as many digits as the number has is fitted from digits that are not zero
and in range. -/
theorem exists_fit_of_sqrtTo (nonzero : m ≠ 0) (some : 28 ≤ keep) (short : decimalLength m ≤ keep)
    (least : leastExponent precision ≤ e) : ∃ k u, k ≠ 0 ∧ leastExponent keep ≤ u ∧
      sqrtTo keep (.finite false m e) = fit keep false k u := by
  have floor : leastExponent precision = -1000026 := by decide
  have floor' : leastExponent keep = -999999 - keep + 1 := rfl
  have halved : e.fdiv 2 = e / 2 := Int.fdiv_eq_ediv_of_nonneg e (by decide)
  rw [sqrtTo, if_neg nonzero, if_neg Bool.false_ne_true]
  extract_lets odd square half shift scale scaled root exactly exponent
  have positive : 0 < square := by
    simp only [square]
    split <;> omega
  have above : 0 ≤ shift := by
    simp only [shift, half]
    split <;> omega
  have upper : shift ≤ keep + 1 := by
    simp only [shift]
    omega
  have large : 10 ^ shift.toNat ≤ root := by
    have hundred : (10 ^ shift.toNat) * 10 ^ shift.toNat = 100 ^ shift.toNat := by
      rw [← mul_pow]
      norm_num
    have natural : shift.natAbs = shift.toNat := by omega
    have power : scale = 100 ^ shift.toNat := by
      simp only [scale, natural]
      rfl
    have same : scaled = square * 100 ^ shift.toNat := by
      simp only [scaled]
      rw [if_pos above, power]
    have rooted : root = Nat.sqrt scaled := floorSqrt_eq_sqrt scaled
    rw [rooted, Nat.le_sqrt, same, hundred]
    exact Nat.le_mul_of_pos_left _ positive
  have ten : 0 < 10 ^ shift.toNat := by positivity
  split
  next =>
    refine ⟨root / 10 ^ shift.toNat, exponent + shift, ?_, ?_, rfl⟩
    · exact (Nat.div_pos large ten).ne'
    · simp only [exponent]
      omega
  next =>
    refine ⟨_, exponent, ?_, ?_, rfl⟩
    · split <;> omega
    · simp only [exponent]
      omega

/-- The root of a positive number in range is not zero. -/
theorem ne_zero_of_sqrt (nonzero : m ≠ 0) (least : leastExponent precision ≤ e)
    (root : sqrt (.finite false m e) = .ok d) : ∃ k u, d = .finite false k u ∧ k ≠ 0 := by
  have some : 28 ≤ max precision (decimalLength m) := le_max_left 28 _
  rcases exists_fit_of_sqrtTo nonzero some (le_max_right ..) least with ⟨k, u, digits, place, rooted⟩
  have fitted := rooted.symm.trans root
  rcases exists_of_fit fitted with ⟨k', u', rfl, -⟩
  exact ⟨k', u', rfl, ne_zero_of_fit (by omega) digits place fitted⟩

/-! ## Signs -/

/-- Whether a decimal is finite and has no sign. -/
def Unsigned (d : Decimal) : Prop := ∃ m e, d = .finite false m e

/-- Whether a computation ends in no decimals but finite ones without sign. -/
def GivesUnsigned (outcome : Except DecimalSignal Decimal) : Prop :=
  ∀ d, outcome = .ok d → d.Unsigned

theorem givesUnsigned_bind {first : Except DecimalSignal Decimal}
    {next : Decimal → Except DecimalSignal Decimal} (each : GivesUnsigned first)
    (rest : ∀ a, a.Unsigned → GivesUnsigned (next a)) : GivesUnsigned (first >>= next) := by
  cases first with
  | error signal => exact fun d ended => nomatch ended
  | ok a => exact rest a (each a rfl)

theorem givesUnsigned_fit (keep m : Nat) (e : Int) : GivesUnsigned (fit keep false m e) := by
  intro d fitted
  rcases exists_of_fit fitted with ⟨k, u, same, -⟩
  exact ⟨k, u, same⟩

theorem givesUnsigned_sqrtTo {a : Decimal} (unsigned : a.Unsigned) :
    GivesUnsigned (sqrtTo keep a) := by
  rcases unsigned with ⟨m, e, rfl⟩
  rw [sqrtTo, if_neg Bool.false_ne_true]
  extract_lets odd square half shift scale scaled root exactly exponent
  split_ifs <;> exact givesUnsigned_fit _ _ _

theorem givesUnsigned_divTo {a b : Decimal} (left : a.Unsigned) (right : b.Unsigned) :
    GivesUnsigned (divTo keep a b) := by
  rcases left with ⟨m, e, rfl⟩
  rcases right with ⟨n, f, rfl⟩
  rw [divTo, bne_self_eq_false]
  split_ifs
  · exact fun d ended => nomatch ended
  · exact fun d ended => nomatch ended
  · exact givesUnsigned_fit _ _ _
  · unfold quotient
    dsimp only
    split <;> exact givesUnsigned_fit _ _ _

/-! ## Arithmetic -/

variable {n : Nat} {f : Int} {t : Bool}

/-- Whether a decimal is finite and not below the least exponent of arithmetic. -/
def InRange (d : Decimal) : Prop := ∃ s m e, d = .finite s m e ∧ leastExponent precision ≤ e

theorem inRange_of_fit (fitted : fit precision s m e = .ok d) : InRange d := by
  rcases exists_of_fit fitted with ⟨k, u, rfl, place⟩
  exact ⟨s, k, u, rfl, place⟩

theorem inRange_of_add (added : add (.finite s m e) (.finite t n f) = .ok d) : InRange d := by
  have opposite : ∀ {p q : Nat} {unit : Int},
      (if p = q then fit precision false 0 (min e f)
        else if q < p then fit precision s (p - q) unit
        else fit precision t (q - p) unit) = .ok d → InRange d := by
    intro p q unit fitted
    split_ifs at fitted <;> exact inRange_of_fit fitted
  rw [add] at added
  split_ifs at added <;> first | exact inRange_of_fit added | exact opposite added

theorem inRange_of_mul (multiplied : mul (.finite s m e) (.finite t n f) = .ok d) : InRange d :=
  inRange_of_fit multiplied

theorem inRange_of_neg (negated : neg (.finite s m e) = .ok d) : InRange d :=
  inRange_of_fit negated

end ExactRoots.Decimal
