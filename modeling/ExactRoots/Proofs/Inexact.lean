import ExactRoots.Proofs.Binary64.Sign

/-!
# Magnitudes of inexact numbers

The magnitude of an inexact number is never NaN, so any two magnitudes can be
compared, and that of a zero is zero.  An absolute value is at least zero unless
it is NaN.
-/

namespace ExactRoots.Inexact

theorem size_isNaN (a : Inexact) : a.size.isNaN = false := by
  have limit : Binary64.infinity.isNaN = false := by decide
  unfold size
  split
  next magnitude =>
    split
    next finite => exact Binary64.isNaN_of_isFinite finite
    next => exact limit
  next => exact limit

theorem size_le_refl (a : Inexact) : a.size ≤ a.size :=
  Binary64.le_refl a.size_isNaN

/-- The hypotenuse over two zeros is zero. -/
theorem hypot_of_zeros {x y : Float} (xZero : (x == 0.0) = true) (yZero : (y == 0.0) = true) :
    Binary64.hypot x y = Float.ofBits 0 := by
  rcases Binary64.dyadic?_of_beq_zero xZero with ⟨d, xForm, xMantissa⟩
  rcases Binary64.dyadic?_of_beq_zero yZero with ⟨e, yForm, yMantissa⟩
  simp [Binary64.hypot, xForm, yForm, xMantissa, yMantissa, Binary64.rootOfRatio,
    Binary64.ofPattern]

theorem abs_of_zero {x : Float} (zero : (x == 0.0) = true) : x.abs = Float.ofBits 0 := by
  rcases Binary64.beq_zero_iff_unpack.mp zero with ⟨sign, unpacked⟩
  have unfolded : x.abs = ⟨.pack x.toModel.unpack.abs⟩ := rfl
  rw [unfolded, unpacked]
  rfl

/-- The absolute value of a zero is zero. -/
theorem abs?_of_isZero {a : Inexact} (zero : a.isZero = true) : a.abs? = some (Float.ofBits 0) := by
  simp only [isZero, Bool.and_eq_true] at zero
  rcases zero with ⟨reZero, imZero⟩
  cases a with
  | real x => exact congrArg some (abs_of_zero reZero)
  | complex re im =>
    rcases Binary64.isInf_of_beq_zero reZero with ⟨reFinite, reNumber⟩
    rcases Binary64.isInf_of_beq_zero imZero with ⟨imFinite, imNumber⟩
    have length : Binary64.hypot re im = Float.ofBits 0 := hypot_of_zeros reZero imZero
    have bounded : (Float.ofBits 0).isInf = false := by decide
    simp_all [abs?, Inexact.re, Inexact.im]

/-- The magnitude of a zero is zero. -/
theorem size_of_isZero {a : Inexact} (zero : a.isZero = true) : a.size = Float.ofBits 0 := by
  rw [size, abs?_of_isZero zero]
  rfl

/-- The magnitude of a zero is within any positive bound. -/
theorem size_le_of_isZero {a : Inexact} {bound : Float} (zero : a.isZero = true)
    (positive : 0.0 < bound) : a.size ≤ bound := by
  have same : Float.ofBits 0 = 0.0 := by decide
  rw [size_of_isZero zero, same]
  exact Binary64.le_of_lt positive

/-- An absolute value is at least zero. -/
theorem zero_le_of_abs? {a : Inexact} {m : Float} (size : a.abs? = some m)
    (number : m.isNaN = false) : 0.0 ≤ m := by
  cases a with
  | real x =>
    obtain rfl := Option.some.inj size
    exact Binary64.zero_le_abs number
  | complex re im =>
    simp only [abs?] at size
    split_ifs at size
    · obtain rfl := Option.some.inj size
      decide
    · obtain rfl := Option.some.inj size
      exact absurd number (by decide)
    · obtain rfl := Option.some.inj size
      exact Binary64.zero_le_hypot number

/-- A magnitude is at least zero. -/
theorem zero_le_size (a : Inexact) : 0.0 ≤ a.size := by
  have limit : (0.0 : Float) ≤ Binary64.infinity := by decide
  unfold size
  split
  next magnitude measured =>
    split
    next finite => exact zero_le_of_abs? measured (Binary64.isNaN_of_isFinite finite)
    next => exact limit
  next => exact limit

/-- The magnitude of a zero is at most any other. -/
theorem size_le_size_of_isZero {a : Inexact} (zero : a.isZero = true) (b : Inexact) :
    a.size ≤ b.size := by
  have same : Float.ofBits 0 = 0.0 := by decide
  rw [size_of_isZero zero, same]
  exact b.zero_le_size

theorem finite_abs? {a : Inexact} (finite : a.isFinite = true) :
    ∃ m, a.abs? = some m ∧ m.isFinite = true := by
  have least : ¬ Binary64.infinity < Binary64.infinity := by decide
  unfold isFinite size at finite
  rw [decide_eq_true_eq] at finite
  split at finite
  next m measured =>
    split at finite
    next number => exact ⟨m, measured, number⟩
    next => exact absurd finite least
  next => exact absurd finite least

/-- A complex number has a finite absolute value only if its parts are neither infinite nor NaN. -/
theorem parts_of_finite_abs? {p q m : Float} (measured : (complex p q).abs? = some m)
    (number : m.isFinite = true) :
    (p.isInf = false ∧ q.isInf = false) ∧ p.isNaN = false ∧ q.isNaN = false := by
  rw [abs?] at measured
  split_ifs at measured with infinite undefined
  · obtain rfl := Option.some.inj measured
    exact absurd number (by decide)
  · obtain rfl := Option.some.inj measured
    exact absurd number (by decide)
  · simpa only [Bool.or_eq_true, not_or, Bool.not_eq_true] using And.intro infinite undefined

/-- The parts of a finite number are numbers. -/
theorem isNaN_of_isFinite {a : Inexact} (finite : a.isFinite = true) :
    a.re.isNaN = false ∧ a.im.isNaN = false := by
  rcases finite_abs? finite with ⟨m, measured, number⟩
  cases a with
  | real x =>
    obtain rfl := Option.some.inj measured
    have zero : (0.0 : Float).isNaN = false := by decide
    refine ⟨?_, zero⟩
    rw [re, Bool.eq_false_iff]
    intro undefined
    obtain rfl : x = Float.nan := by simpa using undefined
    exact absurd number (by decide)
  | complex p q => exact (parts_of_finite_abs? measured number).2

/-- The parts of a finite number are finite. -/
theorem isInf_of_isFinite {a : Inexact} (finite : a.isFinite = true) :
    a.re.isInf = false ∧ a.im.isInf = false := by
  rcases finite_abs? finite with ⟨m, measured, number⟩
  cases a with
  | real x =>
    obtain rfl := Option.some.inj measured
    have zero : (0.0 : Float).isInf = false := by decide
    exact ⟨Binary64.isInf_of_isFinite_abs number, zero⟩
  | complex p q => exact (parts_of_finite_abs? measured number).1

end ExactRoots.Inexact
