import ExactRoots.Proofs.Binary64.Operations

/-!
# Square roots of doubles

The square of the square root of a double is within two units in the last place of
the double, and the root of a rounded square is no smaller than the number that was
squared, as far as squares are normal numbers.
-/

namespace ExactRoots.Binary64

/-! ## Places and values -/

/-- The value of a double is told by its place. -/
theorem toRat?_of_place? {x : Float} {n : Int} (place : place? x = some (.ofPosition n))
    (finite : n.natAbs < infinityPattern) : toRat? x = some (valueAt n) := by
  have unique : ∀ {k : Int}, k.natAbs ≤ infinityPattern → Place.ofPosition n = .ofPosition k →
      n = k := fun bound same =>
    Place.ofPosition_strictMonoOn.injOn (Set.mem_Icc.mpr (by omega)) (Set.mem_Icc.mpr (by omega))
      same
  have field := exponentField_lt x
  rcases Nat.lt_or_ge (exponentField x) 2047 with number | special
  · rcases exists_valueAt number with ⟨k, bound, place', value⟩
    rw [place, Option.some.injEq] at place'
    rw [unique bound.le place', value]
  · -- infinities are where the pattern of infinity is
    obtain special : exponentField x = 2047 := by omega
    rw [place?, unpack_eq, ofFields, if_pos special] at place
    have upper : Place.ofPosition infinityPattern = .of 2 0 0 := rfl
    have lower : Place.ofPosition (-infinityPattern) = .of (-2) 0 0 := rfl
    split at place
    · generalize sign x = s at place
      rcases s with _ | _
      · have := unique (by simp) ((Option.some.inj place).symm.trans lower.symm)
        omega
      · have := unique (by simp) ((Option.some.inj place).symm.trans upper.symm)
        omega
    · contradiction

/-- The next larger double is near in proportion. -/
theorem patternValue_succ_le {pattern : Nat} (normal : 2 ^ 52 ≤ pattern) :
    patternValue (pattern + 1) ≤ patternValue pattern * (1 + 1 / 2 ^ 52) := by
  have digits : 2 ^ 52 ≤ pattern - (max 1 (pattern / 2 ^ 52) - 1) * 2 ^ 52 := by omega
  have digits : (2 ^ 52 : Rat) ≤ (pattern - (max 1 (pattern / 2 ^ 52) - 1) * 2 ^ 52 : Nat) := by
    exact_mod_cast digits
  rw [patternValue_succ, mul_add, mul_one, add_le_add_iff_left, patternValue]
  rw [mul_one_div, le_div_iff₀ (by positivity), mul_comm]
  exact mul_le_mul_of_nonneg_right digits (by positivity)

/-- The powers of two are where the mantissa field is zero. -/
theorem patternValue_power {field : Nat} (normal : 0 < field) :
    patternValue (field * 2 ^ 52) = 2 ^ ((field : Int) - 1023) := by
  obtain ⟨t, rfl⟩ : ∃ t, field = t + 1 := ⟨field - 1, by omega⟩
  rw [Nat.add_one_mul, patternValue_of_digits (by omega) (.inr le_rfl), Nat.cast_pow,
    Nat.cast_ofNat, ← zpow_natCast, ← zpow_add₀ two_ne_zero]
  congr 1
  omega

/-- The values of doubles above zero are within these bounds. -/
theorem bounds_of_toRat? {x : Float} {p : Rat} (value : toRat? x = some p) (positive : 0 < p) :
    ∃ n : Nat, 0 < n ∧ n < infinityPattern ∧ p = patternValue n := by
  rcases exists_valueAt (exponentField_of_toRat? value) with ⟨n, bound, -, value'⟩
  obtain rfl : p = valueAt n := Option.some.inj (value.symm.trans value')
  have nonneg : 0 < n := by
    rw [← valueAt_zero] at positive
    exact valueAt_strictMono.lt_iff_lt.mp positive
  lift n to Nat using nonneg.le
  exact ⟨n, by omega, by omega, valueAt_natCast n⟩

/-! ## Accuracy -/

/-- The root is between the roots of the least double and of the power of two above all doubles. -/
theorem root_position_bounds {k : Nat} {n : Int} (positive : 0 < k) (finite : k < infinityPattern)
    (between : ∀ z : Rat, 0 ≤ z → (z * z ≤ patternValue k → position z ≤ n) ∧
      (patternValue k ≤ z * z → n ≤ position z)) :
    486 * 2 ^ 52 ≤ n ∧ n ≤ 1535 * 2 ^ 52 := by
  have limit : infinityPattern = 2047 * 2 ^ 52 := rfl
  constructor
  · have one : patternValue 1 = 2 ^ (-1074 : Int) := by
      simpa using patternValue_of_digits (t := 0) (m := 1) (by norm_num) (.inl rfl)
    have root := @patternValue_power 486 (by norm_num)
    have below := (between (patternValue (486 * 2 ^ 52)) (patternValue_nonneg _)).1 (by
      rw [root, ← zpow_add₀ two_ne_zero]
      exact one.symm.le.trans (patternValue_strictMono.monotone positive))
    rw [position_patternValue (by omega)] at below
    exact_mod_cast below
  · have root := @patternValue_power 1535 (by norm_num)
    have infinite := @patternValue_power 2047 (by norm_num)
    have above := (between (patternValue (1535 * 2 ^ 52)) (patternValue_nonneg _)).2 (by
      rw [root, ← zpow_add₀ two_ne_zero]
      exact (patternValue_strictMono finite).le.trans infinite.le)
    rw [position_patternValue (by omega)] at above
    exact_mod_cast above

/-- The square root of a positive double is a double, and its square is near in proportion. -/
theorem sqrt_spec {x : Float} {p : Rat} (value : toRat? x = some p) (positive : 0 < p) :
    ∃ n : Nat, 2 ^ 52 ≤ n ∧ n < infinityPattern ∧ place? x.sqrt = some (.ofPosition n) ∧
      toRat? x.sqrt = some (patternValue n) ∧
      p < (patternValue n * (1 + 1 / 2 ^ 52)) * (patternValue n * (1 + 1 / 2 ^ 52)) ∧
      (patternValue n * (1 - 1 / 2 ^ 52)) * (patternValue n * (1 - 1 / 2 ^ 52)) < p := by
  rcases place?_sqrt value positive.le with ⟨n, place, between⟩
  rcases bounds_of_toRat? value positive with ⟨k, kPositive, kFinite, rfl⟩
  rcases root_position_bounds kPositive kFinite between with ⟨lower, upper⟩
  have limit : infinityPattern = 2047 * 2 ^ 52 := rfl
  lift n to Nat using by omega
  have rootPositive : 0 < patternValue n := by
    rw [← patternValue_zero]
    exact patternValue_strictMono (by omega)
  refine ⟨n, by omega, by omega, place, ?_, ?_, ?_⟩
  · rw [toRat?_of_place? place (by simpa using (by omega : n < infinityPattern)), valueAt_natCast]
  · by_contra! above
    have next := (between _ (by positivity)).1 above
    have step := position_mono (patternValue_succ_le (by omega : 2 ^ 52 ≤ n))
    rw [position_patternValue (by omega : n + 1 < infinityPattern)] at step
    omega
  · by_contra! below
    have last : patternValue n * (1 - 1 / 2 ^ 52) ≤ patternValue (n - 1) := by
      have step := patternValue_succ_le (by omega : 2 ^ 52 ≤ n - 1)
      rw [Nat.sub_add_cancel (by omega)] at step
      have nonneg := patternValue_nonneg (n - 1)
      linarith
    have previous := (between _ (mul_nonneg rootPositive.le (by norm_num))).2 below
    have step := position_mono last
    rw [position_patternValue (by omega : n - 1 < infinityPattern)] at step
    omega

end ExactRoots.Binary64
