import ExactRoots.Binary64.Neighbors
import ExactRoots.Proofs.Binary64.Value

/-!
# Neighbouring doubles by position

The next double above is one position further on, up to infinity, so the neighbours
of a double are the doubles at most so many positions away from it.
-/

namespace ExactRoots.Binary64

open Float.Model

variable {x y : Float} {n : Int}

/-! ## Positions and bits -/

/-- The pattern of a double without its sign. -/
def unsigned (x : Float) : Nat := exponentField x * 2 ^ 52 + mantissaField x

theorem toNat_toBits (x : Float) :
    x.toBits.toNat = if isNegative x then unsigned x + 2 ^ 63 else unsigned x := by
  have bound := x.toBits.toNat_lt
  have exponent : exponentField x = x.toBits.toNat / 2 ^ 52 % 2 ^ 11 := rfl
  have mantissa : mantissaField x = x.toBits.toNat % 2 ^ 52 := rfl
  have bit : isNegative x = (x.toBits.toNat / 2 ^ 63 == 1) := rfl
  rw [unsigned, exponent, mantissa, bit]
  split
  next negative =>
    rw [beq_iff_eq] at negative
    omega
  next nonneg =>
    rw [beq_iff_eq] at nonneg
    omega

/-- The position that the bits of a double tell. -/
def bitPosition (x : Float) : Int := if isNegative x then -(unsigned x : Int) else unsigned x

/-- The bits of a number tell its position. -/
theorem bitPosition_spec (number : x.isNaN = false) :
    unsigned x ≤ infinityPattern ∧ place? x = some (.ofPosition (bitPosition x)) := by
  have limit : infinityPattern = 2047 * 2 ^ 52 := rfl
  have field := exponentField_lt x
  have mantissa := mantissaField_lt x
  have bound : unsigned x ≤ infinityPattern := by
    by_contra! beyond
    rw [unsigned] at beyond
    have unpacked : x.toModel.unpack = .notANumber := by
      rw [unpack_eq, ofFields, if_pos (by omega), if_neg (by omega)]
    rcases isNaN_eq_false_iff.mp number with ⟨a, place⟩
    rw [place?, unpacked] at place
    contradiction
  constructor
  · exact bound
  · have exponent : unsigned x / 2 ^ 52 = exponentField x := by
      rw [unsigned]
      omega
    have rest : unsigned x % 2 ^ 52 = mantissaField x := by
      rw [unsigned]
      omega
    have unpacked : x.toModel.unpack = (ofPattern (isNegative x) (unsigned x)).toModel.unpack := by
      rw [unpack_ofPattern _ (bound.trans_lt (by decide)), exponent, rest, unpack_eq, isNegative_eq]
      cases sign x <;> rfl
    rw [place?_congr unpacked, place?_ofPattern _ bound, bitPosition]

theorem Place.ofPosition_of_le (large : (infinityPattern : Int) ≤ n) :
    Place.ofPosition n = .ofPosition infinityPattern := by
  have some : infinityPattern ≠ 0 := by decide
  rw [Place.ofPosition, Place.ofPosition, if_neg (by omega), if_neg (by omega), Place.ofPattern,
    Place.ofPattern, if_neg (by omega), if_pos (by omega), Int.natAbs_natCast, if_neg some,
    if_pos le_rfl]

theorem isNaN_of_place? {a : Place} (place : place? x = some a) : x.isNaN = false :=
  isNaN_eq_false_iff.mpr ⟨a, place⟩

theorem bitPosition_eq (place : place? x = some (.ofPosition n)) (lower : -infinityPattern ≤ n)
    (upper : n ≤ infinityPattern) : bitPosition x = n := by
  rcases bitPosition_spec (isNaN_of_place? place) with ⟨bound, place'⟩
  rw [place, Option.some.injEq] at place'
  have range : bitPosition x ∈ Set.Icc (-infinityPattern : Int) infinityPattern := by
    rw [Set.mem_Icc, bitPosition]
    split <;> omega
  exact (Place.ofPosition_strictMonoOn.injOn (Set.mem_Icc.mpr ⟨lower, upper⟩) range place').symm

theorem ofBits_eq_ofPattern {bits : UInt64} {negative : Bool} {pattern : Nat}
    (same : bits.toNat = if negative then pattern + 2 ^ 63 else pattern) :
    Float.ofBits bits = ofPattern negative pattern := by
  rw [ofPattern, Nat.pow_eq, ← same, UInt64.ofNat_toNat]

/-- The bits of positive infinity. -/
theorem beq_infinity_iff (bits : UInt64) :
    (bits == 0x7ff0000000000000) = true ↔ bits.toNat = infinityPattern := by
  have pattern : (0x7ff0000000000000 : UInt64).toNat = infinityPattern := by decide
  rw [beq_iff_eq, ← UInt64.toNat_inj, pattern]

theorem Place.ofPosition_neg (n : Int) : Place.ofPosition (-n) = (Place.ofPosition n).opposite := by
  have twice : ∀ a : Place, a.opposite.opposite = a := by
    intro a
    simp [Place.opposite, Place.of]
  unfold Place.ofPosition
  rw [Int.natAbs_neg]
  rcases lt_trichotomy n 0 with below | rfl | above
  · rw [if_neg (by omega), if_pos below, twice]
  · rfl
  · rw [if_pos (by omega), if_neg (by omega)]

theorem place?_neg (place : place? x = some (.ofPosition n)) :
    place? (-x) = some (.ofPosition (-n)) := by
  have negated : ∀ u : UnpackedFloat, unpackedPlace? u.neg = (unpackedPlace? u).map Place.opposite := by
    rintro ((_ | _) | _ | _ | ⟨_ | _, m, e, positive⟩)
    case finite.negative =>
      have mirrored : (UnpackedFloat.finite .negative m e positive).neg = .finite .positive m e positive :=
        rfl
      simp [mirrored, unpackedPlace?, Place.opposite, Place.of]
    all_goals rfl
  have unpacked : (-x).toModel.unpack = x.toModel.unpack.neg := by
    rw [unpack_neg, ← ofFields_neg, ← unpack_eq]
  rw [place?] at place
  rw [place?, unpacked, negated, place, Option.map_some, Place.ofPosition_neg]

/-! ## The next double -/

/-- Infinity is its own next double. -/
theorem above_of_le (place : place? x = some (.ofPosition n)) (large : (infinityPattern : Int) ≤ n) :
    above x = x := by
  have number : ¬ x.isNaN = true := by
    rw [isNaN_of_place? place]
    exact Bool.false_ne_true
  rw [Place.ofPosition_of_le large] at place
  have position := bitPosition_eq place (by omega) le_rfl
  have limit : infinityPattern = 0x7ff0000000000000 := rfl
  have nonneg : ¬ isNegative x = true := by
    intro negative
    rw [bitPosition, if_pos negative] at position
    omega
  rw [bitPosition, if_neg nonneg] at position
  have bits := toNat_toBits x
  rw [if_neg nonneg, Nat.cast_inj.mp position] at bits
  have infinite := (beq_infinity_iff x.toBits).mpr bits
  have nonzero : ¬ (x == 0.0) = true := by
    rw [beq_zero_iff, place]
    decide
  rw [above, if_neg number, if_neg nonzero, if_neg nonneg, if_pos infinite]

/-- Towards zero the bits of a negative double count down. -/
theorem ofBits_pred (negative : isNegative x = true) (some : 0 < unsigned x) :
    Float.ofBits (x.toBits - 1) = ofPattern true (unsigned x - 1) := by
  have bits := toNat_toBits x
  rw [if_pos negative] at bits
  have one : (1 : UInt64) ≤ x.toBits := by
    rw [UInt64.le_iff_toNat_le, bits]
    exact Nat.one_le_two_pow.trans (Nat.le_add_left _ _)
  apply ofBits_eq_ofPattern
  rw [UInt64.toNat_sub_of_le _ _ one, bits, if_pos rfl, UInt64.toNat_one]
  omega

/-- Away from zero the bits of a positive double count up. -/
theorem ofBits_succ (nonneg : ¬ isNegative x = true) (finite : unsigned x < infinityPattern) :
    Float.ofBits (x.toBits + 1) = ofPattern false (unsigned x + 1) := by
  have limit : infinityPattern = 0x7ff0000000000000 := rfl
  have bits := toNat_toBits x
  rw [if_neg nonneg] at bits
  apply ofBits_eq_ofPattern
  rw [UInt64.toNat_add, bits, if_neg Bool.false_ne_true, UInt64.toNat_one]
  omega

/-- The next double above is one position further on; beyond infinity it is infinity. -/
theorem place?_above (place : place? x = some (.ofPosition n)) (lower : -infinityPattern ≤ n) :
    place? (above x) = some (.ofPosition (n + 1)) := by
  have number : ¬ x.isNaN = true := by
    rw [isNaN_of_place? place]
    exact Bool.false_ne_true
  rcases le_or_gt (infinityPattern : Int) n with large | small
  · rw [above_of_le place large, place, Place.ofPosition_of_le large,
      Place.ofPosition_of_le (large.trans (Int.le_add_one le_rfl))]
  have position := bitPosition_eq place lower small.le
  rw [above, if_neg number]
  split
  next vanishes =>
    rw [beq_zero_iff, place, Option.some.injEq] at vanishes
    obtain rfl : n = 0 :=
      Place.ofPosition_strictMonoOn.injOn (Set.mem_Icc.mpr ⟨lower, small.le⟩)
        (Set.mem_Icc.mpr (by omega)) vanishes
    exact place?_ofPattern false (by decide)
  next nonzero =>
    have away : n ≠ 0 := by
      rintro rfl
      exact nonzero (beq_zero_iff.mpr place)
    split
    next negative =>
      rw [bitPosition, if_pos negative] at position
      rw [ofBits_pred negative (by omega), place?_ofPattern true (by omega), if_pos rfl]
      congr 2
      omega
    next nonneg =>
      rw [bitPosition, if_neg nonneg] at position
      have finite : ¬ (x.toBits == 0x7ff0000000000000) = true := by
        rw [beq_infinity_iff, toNat_toBits, if_neg nonneg]
        omega
      have shifted : n + 1 = ((unsigned x + 1 : Nat) : Int) := by omega
      rw [if_neg finite, ofBits_succ nonneg (by omega), shifted]
      exact place?_ofPattern false (by omega)

theorem place?_below (place : place? x = some (.ofPosition n)) (upper : n ≤ infinityPattern) :
    place? (below x) = some (.ofPosition (n - 1)) := by
  have next := place?_neg (place?_above (place?_neg place) (by omega))
  rwa [neg_add, neg_neg, ← sub_eq_add_neg] at next

/-! ## Neighbours -/

/-- Whether a double is at most so many positions away from another one. -/
def Beside (reach : Nat) (x y : Float) : Prop :=
  ∃ m n : Int, m.natAbs ≤ infinityPattern ∧ place? x = some (.ofPosition m) ∧
    place? y = some (.ofPosition n) ∧ (n - m).natAbs ≤ reach

/-- The pairs from `k` positions away on are at the positions further away. -/
theorem mem_pairs {m : Int} (bound : m.natAbs ≤ infinityPattern) {low high : Float} {k : Nat}
    (count : Nat) (lower : place? low = some (.ofPosition (m - k)))
    (upper : place? high = some (.ofPosition (m + k))) :
    (∀ y ∈ neighbors.pairs low high count, ∃ n : Int, place? y = some (.ofPosition n) ∧
      k < (n - m).natAbs ∧ (n - m).natAbs ≤ k + count) ∧
    ∀ n : Int, k < (n - m).natAbs → (n - m).natAbs ≤ k + count →
      ∃ y ∈ neighbors.pairs low high count, place? y = some (.ofPosition n) := by
  induction count generalizing low high k with
  | zero =>
    constructor
    · simp [neighbors.pairs]
    · intro n above within
      omega
  | succ count ih =>
    have nextLower := place?_below lower (by omega)
    have nextUpper := place?_above upper (by omega)
    rw [sub_sub, ← Nat.cast_succ] at nextLower
    rw [add_assoc, ← Nat.cast_succ] at nextUpper
    rcases ih nextLower nextUpper with ⟨inside, covered⟩
    rw [neighbors.pairs]
    constructor
    · intro y member
      rw [List.mem_cons, List.mem_cons] at member
      rcases member with rfl | rfl | member
      · exact ⟨_, nextLower, by omega, by omega⟩
      · exact ⟨_, nextUpper, by omega, by omega⟩
      · rcases inside y member with ⟨n, place, above, within⟩
        exact ⟨n, place, by omega, by omega⟩
    · intro n above within
      by_cases nearest : (n - m).natAbs = k + 1
      · rcases le_total n m with below | above
        · have same : n = m - (k.succ : Nat) := by omega
          exact ⟨_, List.mem_cons_self, same ▸ nextLower⟩
        · have same : n = m + (k.succ : Nat) := by omega
          exact ⟨_, List.mem_cons_of_mem _ List.mem_cons_self, same ▸ nextUpper⟩
      · rcases covered n (by omega) (by omega) with ⟨y, member, place⟩
        exact ⟨y, List.mem_cons_of_mem _ (List.mem_cons_of_mem _ member), place⟩

/-- The neighbours of a double are the double itself and those at most so many positions away. -/
theorem mem_neighbors {m : Int} (bound : m.natAbs ≤ infinityPattern)
    (place : place? x = some (.ofPosition m)) (count : Nat) :
    (∀ y ∈ neighbors x count, ∃ n : Int, place? y = some (.ofPosition n) ∧
      (n - m).natAbs ≤ count) ∧
    ∀ n : Int, (n - m).natAbs ≤ count →
      ∃ y ∈ neighbors x count, place? y = some (.ofPosition n) := by
  have lower : place? x = some (.ofPosition (m - (0 : Nat))) := by
    rwa [Nat.cast_zero, sub_zero]
  have upper : place? x = some (.ofPosition (m + (0 : Nat))) := by
    rwa [Nat.cast_zero, add_zero]
  rcases mem_pairs bound count lower upper with ⟨inside, covered⟩
  rw [neighbors]
  constructor
  · intro y member
    rcases List.mem_cons.mp member with rfl | member
    · exact ⟨m, place, by omega⟩
    · rcases inside y member with ⟨n, found, -, within⟩
      exact ⟨n, found, by omega⟩
  · intro n within
    by_cases same : n = m
    · exact ⟨x, List.mem_cons_self, same ▸ place⟩
    · rcases covered n (by omega) (by omega) with ⟨y, member, found⟩
      exact ⟨y, List.mem_cons_of_mem x member, found⟩

/-- The neighbours of a number are beside it. -/
theorem beside_of_mem_neighbors {count : Nat} (number : x.isNaN = false)
    (member : y ∈ neighbors x count) : Beside count x y := by
  rcases bitPosition_spec number with ⟨bound, place⟩
  have range : (bitPosition x).natAbs ≤ infinityPattern := by
    rw [bitPosition]
    split <;> omega
  rcases (mem_neighbors range place count).1 y member with ⟨n, found, within⟩
  exact ⟨_, n, range, place, found, within⟩

/-- Every double beside a number is one of its neighbours, up to the sign of zero. -/
theorem exists_mem_neighbors {count : Nat} (beside : Beside count x y) :
    ∃ z ∈ neighbors x count, (z == y) = true := by
  rcases beside with ⟨m, n, range, place, place', within⟩
  rcases (mem_neighbors range place count).2 n within with ⟨z, member, found⟩
  exact ⟨z, member, beq_iff_places.mpr ⟨_, found, place'⟩⟩

end ExactRoots.Binary64
