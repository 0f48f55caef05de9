import ExactRoots.Proofs.Binary64.Nearest

/-!
# Positions of rounded numbers

A double is some number of doubles away from zero, which its pattern and its sign
tell.  Comparing the doubles next to two rationals compares these numbers, and they
are in the order of the rationals.
-/

namespace ExactRoots.Binary64

open Float.Model
open UnpackedFloat (unpackExponent unpackMantissa unpackSign)

/-- The place of a pattern without sign. -/
def Place.ofPattern (pattern : Nat) : Place :=
  if pattern = 0 then .zero
  else if infinityPattern ≤ pattern then .of 2 0 0
  else
    let exponent : Nat := max 1 (pattern / 2 ^ 52)
    .of 1 ((exponent : Int) - 1075) (pattern - (exponent - 1) * 2 ^ 52 : Nat)

/-- The place of the double of opposite sign. -/
def Place.opposite (a : Place) : Place :=
  .of (-(ofLex a).1) (-(ofLex (ofLex a).2).1) (-(ofLex (ofLex a).2).2)

/-- The place at a signed distance from zero, counted in doubles. -/
def Place.ofPosition (n : Int) : Place :=
  if n < 0 then (Place.ofPattern n.natAbs).opposite else .ofPattern n.natAbs

theorem Place.of_lt_of_iff {r₁ e₁ m₁ r₂ e₂ m₂ : ℤ} :
    Place.of r₁ e₁ m₁ < .of r₂ e₂ m₂ ↔
      r₁ < r₂ ∨ r₁ = r₂ ∧ (e₁ < e₂ ∨ e₁ = e₂ ∧ m₁ < m₂) := by
  simp only [Place.of, Prod.Lex.toLex_lt_toLex]

theorem Place.opposite_lt_opposite {a b : Place} (less : a < b) : b.opposite < a.opposite := by
  have of_fields : ∀ a : Place, a = .of (ofLex a).1 (ofLex (ofLex a).2).1 (ofLex (ofLex a).2).2 :=
    fun _ => rfl
  rw [of_fields a, of_fields b, Place.of_lt_of_iff] at less
  rw [Place.opposite, Place.opposite, Place.of_lt_of_iff]
  omega

theorem Place.ofPattern_lt_ofPattern {p q : Nat} (less : p < q) (bound : q ≤ infinityPattern) :
    Place.ofPattern p < .ofPattern q := by
  unfold Place.ofPattern Place.zero
  split_ifs <;> simp only [Place.of_lt_of_iff, true_and] <;> omega

/-- Places are ordered as their distances from zero are. -/
theorem Place.ofPosition_strictMonoOn :
    StrictMonoOn Place.ofPosition (Set.Icc (-infinityPattern : Int) infinityPattern) := by
  rintro m ⟨lower, -⟩ n ⟨-, upper⟩ less
  have zero : Place.ofPattern 0 = .zero := rfl
  have opposite : Place.zero.opposite = .zero := rfl
  unfold Place.ofPosition
  split
  next negative =>
    have below : (Place.ofPattern m.natAbs).opposite < .zero := by
      rw [← opposite, ← zero]
      exact Place.opposite_lt_opposite (Place.ofPattern_lt_ofPattern (by omega) (by omega))
    split
    next negative' =>
      exact Place.opposite_lt_opposite (Place.ofPattern_lt_ofPattern (by omega) (by omega))
    next nonneg =>
      apply below.trans_le
      rcases Nat.eq_zero_or_pos n.natAbs with none | some
      · rw [none, zero]
      · rw [← zero]
        exact (Place.ofPattern_lt_ofPattern some (by omega)).le
  next nonneg =>
    rw [if_neg (by omega)]
    exact Place.ofPattern_lt_ofPattern (by omega) (by omega)

theorem unpackedPlace?_ofFields {pattern : Nat} (bound : pattern ≤ infinityPattern) :
    unpackedPlace? (ofFields .positive (pattern / 2 ^ 52) (pattern % 2 ^ 52)) =
      some (.ofPattern pattern) := by
  have limit : infinityPattern = 2047 * 2 ^ 52 := rfl
  rcases Nat.eq_zero_or_pos pattern with rfl | nonzero
  · rfl
  rcases Nat.lt_or_ge pattern infinityPattern with finite | infinite
  · rw [Place.ofPattern, if_neg nonzero.ne', if_neg (Nat.not_le_of_lt finite), ofFields,
      if_neg (by omega)]
    by_cases subnormal : pattern / 2 ^ 52 = 0
    · rw [if_pos subnormal, dif_neg (by omega)]
      simp only [unpackedPlace?, subnormal, Nat.mod_eq_of_lt (show pattern < 2 ^ 52 by omega)]
      rfl
    · rw [if_neg subnormal]
      simp only [unpackedPlace?, max_eq_right (Nat.one_le_iff_ne_zero.mpr subnormal)]
      congr 3
      omega
  · obtain rfl := le_antisymm bound infinite
    rfl

/-- The place of a double is the distance that its pattern tells. -/
theorem place?_ofPattern (negative : Bool) {pattern : Nat} (bound : pattern ≤ infinityPattern) :
    place? (ofPattern negative pattern) =
      some (.ofPosition (if negative then -(pattern : Int) else pattern)) := by
  have positive := unpackedPlace?_ofFields bound
  have negated : unpackedPlace? (ofFields .negative (pattern / 2 ^ 52) (pattern % 2 ^ 52)) =
      (unpackedPlace? (ofFields .positive (pattern / 2 ^ 52) (pattern % 2 ^ 52))).map
        Place.opposite := by
    unfold ofFields
    split_ifs <;> rfl
  rw [place?, unpack_ofPattern negative (bound.trans_lt (by decide))]
  cases negative with
  | false =>
    rw [if_neg Bool.false_ne_true, if_neg Bool.false_ne_true, positive, Place.ofPosition,
      if_neg (by omega), Int.natAbs_natCast]
  | true =>
    rw [if_pos rfl, if_pos rfl, negated, positive, Place.ofPosition, Int.natAbs_neg,
      Int.natAbs_natCast]
    split
    next => rfl
    next zero =>
      obtain rfl : pattern = 0 := by omega
      rfl

theorem isFinite_ofPattern (negative : Bool) {pattern : Nat} (bound : pattern ≤ infinityPattern) :
    (ofPattern negative pattern).isFinite = true ↔ pattern < infinityPattern := by
  have limit : infinityPattern = 2047 * 2 ^ 52 := rfl
  have unfolded : (ofPattern negative pattern).isFinite =
      (ofPattern negative pattern).toModel.unpack.isFinite := rfl
  rw [unfolded, unpack_ofPattern negative (bound.trans_lt (by decide)), ofFields]
  split
  next special =>
    rw [if_pos (by omega)]
    exact iff_of_false Bool.false_ne_true (by omega)
  next finite =>
    have below : pattern < infinityPattern := by omega
    split
    next =>
      split
      next => exact iff_of_true rfl below
      next => exact iff_of_true rfl below
    next => exact iff_of_true rfl below

/-! ## Rationals -/

/-- How many doubles away from zero the one nearest to a rational is. -/
def position (q : Rat) : Int :=
  if q.num < 0 then -(nearestPattern q.num.natAbs q.den : Int)
  else nearestPattern q.num.natAbs q.den

theorem abs_num_div_den (q : Rat) : (q.num.natAbs / q.den : Rat) = |q| := by
  conv_rhs => rw [← Rat.num_div_den q]
  rw [abs_div, Nat.abs_cast, Nat.cast_natAbs, Int.cast_abs]

/-- Rounding to the nearest double keeps the order of rationals. -/
theorem position_mono {p q : Rat} (below : p ≤ q) : position p ≤ position q := by
  have sizes : ∀ {a b : Rat}, |a| ≤ |b| →
      nearestPattern a.num.natAbs a.den ≤ nearestPattern b.num.natAbs b.den := by
    intro a b smaller
    apply nearestPattern_mono a.den_pos b.den_pos
    rwa [abs_num_div_den, abs_num_div_den]
  unfold position
  split
  next negative =>
    split
    next negative' =>
      rw [Rat.num_neg] at negative negative'
      have smaller : |q| ≤ |p| := by
        rw [abs_of_neg negative, abs_of_neg negative']
        exact neg_le_neg below
      have := sizes smaller
      omega
    next => omega
  next nonneg =>
    have pNonneg := Rat.num_nonneg.mp (Int.not_lt.mp nonneg)
    have qNonneg := pNonneg.trans below
    rw [if_neg (Int.not_lt.mpr (Rat.num_nonneg.mpr qNonneg))]
    have smaller : |p| ≤ |q| := by rwa [abs_of_nonneg pNonneg, abs_of_nonneg qNonneg]
    exact Int.ofNat_le.mpr (sizes smaller)

theorem position_mem (q : Rat) :
    position q ∈ Set.Icc (-infinityPattern : Int) infinityPattern := by
  have bound := nearestPattern_le q.num.natAbs q.den
  unfold position
  rw [Set.mem_Icc]
  split <;> omega

theorem place?_ofRat (q : Rat) : place? (ofRat q) = some (.ofPosition (position q)) := by
  rw [ofRat, ofRatio, place?_ofPattern _ (nearestPattern_le _ _), position]
  simp only [decide_eq_true_eq]

theorem ofRat_lt_iff {p q : Rat} : ofRat p < ofRat q ↔ position p < position q := by
  simp [lt_iff_places, place?_ofRat,
    Place.ofPosition_strictMonoOn.lt_iff_lt (position_mem p) (position_mem q)]

theorem ofRat_beq_iff {p q : Rat} : (ofRat p == ofRat q) = true ↔ position p = position q := by
  simp only [beq_iff_places, place?_ofRat, Option.some.injEq, exists_eq_left',
    Place.ofPosition_strictMonoOn.injOn.eq_iff (position_mem q) (position_mem p)]
  exact eq_comm

/-- A rational has a nearest double exactly when it is below the threshold in size. -/
theorem ofRat?_eq (q : Rat) :
    ofRat? q = if |q| < overflowThreshold then some (ofRat q) else none := by
  have finite : (ofRat q).isFinite = true ↔ |q| < overflowThreshold := by
    rw [ofRat, ofRatio, isFinite_ofPattern _ (nearestPattern_le _ _),
      nearestPattern_lt_iff q.den_pos, abs_num_div_den]
  simp only [ofRat?, finite]

end ExactRoots.Binary64
