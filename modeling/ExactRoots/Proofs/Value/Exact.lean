import ExactRoots.Proofs.Gaussian.Field
import ExactRoots.Proofs.Outcome
import ExactRoots.Value.Conversion

/-!
# Arithmetic on exact values

Integers, fractions and exact complex numbers denote Gaussian rationals.  On
them every operation succeeds and computes what it stands for in the field of
Gaussian rationals, and the simplest form of the result is the canonical value
of that number.
-/

namespace ExactRoots.Value

open Outcome

/-- Whether a value is an integer, a fraction or an exact complex number. -/
def IsGaussian (v : Value) : Prop := v.gaussian?.isSome

/-- The Gaussian rational that an exact value denotes; zero for any other
value. -/
def number (v : Value) : Gaussian := v.gaussian?.getD 0

theorem IsGaussian.gaussian?_eq {v : Value} (exact : v.IsGaussian) :
    v.gaussian? = some v.number := by
  rcases Option.isSome_iff_exists.mp exact with ⟨u, denoted⟩
  simp [number, denoted]

theorem number_of_gaussian? {v : Value} {u : Gaussian} (denoted : v.gaussian? = some u) :
    v.number = u := by
  simp [number, denoted]

@[simp]
theorem isGaussian_ofGaussian (u : Gaussian) : (ofGaussian u).IsGaussian := by
  simp [IsGaussian, gaussian?_ofGaussian]

@[simp]
theorem number_ofGaussian (u : Gaussian) : (ofGaussian u).number = u :=
  number_of_gaussian? (gaussian?_ofGaussian u)

theorem ofGaussian_injective : Function.Injective ofGaussian :=
  Function.LeftInverse.injective number_ofGaussian

/-- The exact values by kind, with the numbers that they denote. -/
theorem gaussian?_eq_some_cases {v : Value} {u : Gaussian} (denoted : v.gaussian? = some u) :
    (∃ n : Int, v = .int n ∧ u = .ofRat n) ∨ (∃ q, v = .frac q ∧ u = .ofRat q) ∨
      ∃ re im, ∃ nonreal : im ≠ 0, v = .exact re im nonreal ∧ u = ⟨re, im⟩ := by
  cases v with
  | int n => exact .inl ⟨n, rfl, (Option.some.inj denoted).symm⟩
  | frac q => exact .inr (.inl ⟨q, rfl, (Option.some.inj denoted).symm⟩)
  | exact re im nonreal =>
    exact .inr (.inr ⟨re, im, nonreal, rfl, (Option.some.inj denoted).symm⟩)
  | _ => simp [gaussian?] at denoted

/-! ## Canonical values -/

theorem ofRat_intCast (n : Int) : ofRat n = .int n := by
  simp [ofRat]

theorem ofGaussian_ofRat (q : Rat) : ofGaussian (.ofRat q) = ofRat q := by
  simp [ofGaussian]

@[simp]
theorem ofGaussian_zero : ofGaussian 0 = .int 0 := rfl

/-- The simplest form of an exact value is the canonical value of its number. -/
theorem simplify_of_gaussian? {v : Value} {u : Gaussian} (dropFloat : Bool)
    (denoted : v.gaussian? = some u) : v.simplify dropFloat = ofGaussian u := by
  obtain ⟨n, rfl, rfl⟩ | ⟨q, rfl, rfl⟩ | ⟨re, im, nonreal, rfl, rfl⟩ :=
    gaussian?_eq_some_cases denoted
  · rw [ofGaussian_ofRat, ofRat_intCast]
    rfl
  · rw [ofGaussian_ofRat]
    rfl
  · simp [simplify, ofGaussian, nonreal]

theorem simplest_of_gaussian? {v : Value} {u : Gaussian} (denoted : v.gaussian? = some u) :
    v.simplest = ofGaussian u :=
  simplify_of_gaussian? true denoted

@[simp]
theorem simplify_ofGaussian (dropFloat : Bool) (u : Gaussian) :
    (ofGaussian u).simplify dropFloat = ofGaussian u :=
  simplify_of_gaussian? dropFloat (gaussian?_ofGaussian u)

@[simp]
theorem simplest_ofGaussian (u : Gaussian) : (ofGaussian u).simplest = ofGaussian u :=
  simplify_ofGaussian true u

/-! ## Operations -/

/-- The computation succeeds with an exact value that denotes `u`. -/
def Computes (outcome : Except Fault Value) (u : Gaussian) : Prop :=
  ∃ v, outcome = .ok v ∧ v.gaussian? = some u

theorem computes_ok {v : Value} {u : Gaussian} (denoted : v.gaussian? = some u) :
    Computes (.ok v) u :=
  ⟨v, rfl, denoted⟩

/-- Rules that agree with an operation on Gaussian rationals at every kind of
exact operands compute it. -/
theorem combine_computes {rules : Rules} {op : Gaussian → Gaussian → Gaussian}
    (integers : ∀ m n : Int, Computes (rules.integers m n) (op (.ofRat m) (.ofRat n)))
    (rationals : ∀ p q, Computes (rules.rationals p q) (op (.ofRat p) (.ofRat q)))
    (gaussians : ∀ u v, Computes (rules.gaussians u v) (op u v))
    {a b : Value} {u v : Gaussian} (left : a.gaussian? = some u)
    (right : b.gaussian? = some v) : Computes (rules.combine a b) (op u v) := by
  obtain ⟨m, rfl, rfl⟩ | ⟨p, rfl, rfl⟩ | ⟨re, im, nonreal, rfl, rfl⟩ :=
      gaussian?_eq_some_cases left <;>
    obtain ⟨n, rfl, rfl⟩ | ⟨q, rfl, rfl⟩ | ⟨re', im', nonreal', rfl, rfl⟩ :=
      gaussian?_eq_some_cases right
  · exact integers m n
  · exact rationals m q
  · exact gaussians _ _
  · exact rationals p n
  · exact rationals p q
  · exact gaussians _ _
  · exact gaussians _ _
  · exact gaussians _ _
  · exact gaussians _ _

theorem add_computes {a b : Value} {u v : Gaussian} (left : a.gaussian? = some u)
    (right : b.gaussian? = some v) : Computes (a.add b) (u + v) := by
  have combined : Computes (addRules.combine a b) (u + v) :=
    combine_computes (fun m n => computes_ok (by simp [gaussian?, Gaussian.ofRat_add]))
      (fun p q => computes_ok (by simp [gaussian?, Gaussian.ofRat_add]))
      (fun u v => computes_ok (gaussian?_ofGaussian _)) left right
  obtain ⟨m, rfl, -⟩ | ⟨p, rfl, -⟩ | ⟨re, im, nonreal, rfl, -⟩ :=
    gaussian?_eq_some_cases left <;> exact combined

theorem sub_computes {a b : Value} {u v : Gaussian} (left : a.gaussian? = some u)
    (right : b.gaussian? = some v) : Computes (a.sub b) (u - v) :=
  combine_computes (fun m n => computes_ok (by simp [gaussian?, Gaussian.ofRat_sub]))
    (fun p q => computes_ok (by simp [gaussian?, Gaussian.ofRat_sub]))
    (fun u v => computes_ok (gaussian?_ofGaussian _)) left right

theorem mul_computes {a b : Value} {u v : Gaussian} (left : a.gaussian? = some u)
    (right : b.gaussian? = some v) : Computes (a.mul b) (u * v) := by
  have combined : Computes (mulRules.combine a b) (u * v) :=
    combine_computes (fun m n => computes_ok (by simp [gaussian?, Gaussian.ofRat_mul]))
      (fun p q => computes_ok (by simp [gaussian?, Gaussian.ofRat_mul]))
      (fun u v => computes_ok (gaussian?_ofGaussian _)) left right
  obtain ⟨m, rfl, -⟩ | ⟨p, rfl, -⟩ | ⟨re, im, nonreal, rfl, -⟩ :=
      gaussian?_eq_some_cases left <;>
    obtain ⟨n, rfl, -⟩ | ⟨q, rfl, -⟩ | ⟨re', im', nonreal', rfl, -⟩ :=
      gaussian?_eq_some_cases right <;>
    exact combined

theorem neg_computes {a : Value} {u : Gaussian} (denoted : a.gaussian? = some u) :
    Computes a.neg (-u) := by
  obtain ⟨n, rfl, rfl⟩ | ⟨q, rfl, rfl⟩ | ⟨re, im, nonreal, rfl, rfl⟩ :=
    gaussian?_eq_some_cases denoted
  · exact computes_ok (by simp [gaussian?, Gaussian.ofRat_neg])
  · exact computes_ok (by simp [gaussian?, Gaussian.ofRat_neg])
  · exact computes_ok (gaussian?_ofGaussian _)

/-- An exact value is zero exactly when its number is. -/
theorem isZero_of_gaussian? {a : Value} {u : Gaussian} (denoted : a.gaussian? = some u) :
    a.isZero = .ok (decide (u = 0)) := by
  obtain ⟨n, rfl, rfl⟩ | ⟨q, rfl, rfl⟩ | ⟨re, im, nonreal, rfl, rfl⟩ :=
    gaussian?_eq_some_cases denoted
  · simp [isZero, Gaussian.ext_iff]
    rfl
  · simp [isZero, Gaussian.ext_iff]
    rfl
  · simp [isZero, Gaussian.ext_iff, nonreal]

/-- The quotient of exact values is the canonical value of the quotient. -/
theorem quo_of_gaussian? {a b : Value} {u v : Gaussian} (left : a.gaussian? = some u)
    (right : b.gaussian? = some v) (nonzero : v ≠ 0) : a.quo b = .ok (ofGaussian (u / v)) := by
  have checked : b.isZero = .ok false := by simp [isZero_of_gaussian? right, nonzero]
  obtain ⟨m, rfl, rfl⟩ | ⟨p, rfl, rfl⟩ | ⟨re, im, nonreal, rfl, rfl⟩ :=
      gaussian?_eq_some_cases left <;>
    obtain ⟨n, rfl, rfl⟩ | ⟨q, rfl, rfl⟩ | ⟨re', im', nonreal', rfl, rfl⟩ :=
      gaussian?_eq_some_cases right <;>
    simp [quo, checked, rational?, div, Rules.combine, divRules, nonzero,
      ← Gaussian.ofRat_div, ofGaussian_ofRat]

/-! ## Parts -/

section Parts

variable {v : Value} {u : Gaussian} (denoted : v.gaussian? = some u)

include denoted

theorem tidy_of_gaussian? : v.tidy = ofGaussian u :=
  simplify_of_gaussian? false denoted

theorem realPart_of_gaussian? : v.realPart = ofRat u.re := by
  rw [realPart, tidy_of_gaussian? denoted]
  by_cases real : u.im = 0
  · by_cases whole : u.re.den = 1 <;> simp [ofGaussian, ofRat, real, whole]
  · simp [ofGaussian, real]

theorem imagPart_of_gaussian? : v.imagPart = ofRat u.im := by
  rw [imagPart, tidy_of_gaussian? denoted]
  by_cases real : u.im = 0
  · by_cases whole : u.re.den = 1 <;> simp [ofGaussian, ofRat, real, whole]
  · simp [ofGaussian, real]

theorem isComplex_of_gaussian? : v.isComplex = decide (u.im ≠ 0) := by
  rw [isComplex, tidy_of_gaussian? denoted]
  by_cases real : u.im = 0
  · by_cases whole : u.re.den = 1 <;> simp [ofGaussian, ofRat, real, whole]
  · simp [ofGaussian, real]

end Parts

@[simp]
theorem isExact_ofGaussian (u : Gaussian) : (ofGaussian u).isExact = true := by
  rw [isExact, tidy, simplify_ofGaussian]
  by_cases real : u.im = 0
  · by_cases whole : u.re.den = 1 <;> simp [ofGaussian, ofRat, real, whole]
  · simp [ofGaussian, real]

@[simp]
theorem rational?_ofRat (q : Rat) : (ofRat q).rational? = some q := by
  rw [ofRat]
  split
  next whole => exact congrArg some (Rat.coe_int_num_of_den_eq_one whole)
  next => rfl

theorem standing_ofRat (q : Rat) : (ofRat q).standing = .finite q := by
  unfold ofRat
  split
  next whole => exact congrArg Standing.finite (Rat.coe_int_num_of_den_eq_one whole)
  next => rfl

theorem equals_ofRat (p q : Rat) : (ofRat p).equals (ofRat q) = .ok (p == q) := by
  have agrees : (ofRat p).standing.agree (ofRat q).standing = (p == q) := by
    rw [standing_ofRat, standing_ofRat]
    rfl
  rw [← agrees]
  unfold ofRat
  split <;> split <;> rfl

/-- Canonical values are equal exactly when their numbers are. -/
theorem equals_ofGaussian (u v : Gaussian) :
    (ofGaussian u).equals (ofGaussian v) = .ok (decide (u = v)) := by
  have mixed (q re im : Rat) (nonreal : im ≠ 0) :
      (ofRat q).equals (.exact re im nonreal) = .ok false ∧
        (Value.exact re im nonreal).equals (ofRat q) = .ok false := by
    unfold ofRat
    split <;> exact ⟨rfl, rfl⟩
  by_cases left : u.im = 0 <;> by_cases right : v.im = 0
  · simp [ofGaussian, left, right, equals_ofRat, Gaussian.ext_iff]
    rfl
  · simp [ofGaussian, left, right, mixed, Gaussian.ext_iff, Ne.symm right]
  · simp [ofGaussian, left, right, mixed, Gaussian.ext_iff]
  · simp [ofGaussian, left, right, equals, Gaussian.ext_iff]
    rfl

theorem isBelowZero_ofRat (q : Rat) : (ofRat q).isBelowZero = .ok (decide (q < 0)) := by
  rw [ofRat]
  split
  next whole => simp [isBelowZero, Rat.num_neg]
  next => rfl

/-- Rational parts make the canonical value of the Gaussian rational. -/
theorem makeComplex_of_gaussian? {a b : Value} {p q : Rat}
    (left : a.gaussian? = some (.ofRat p)) (right : b.gaussian? = some (.ofRat q)) :
    makeComplex a b = .ok (ofGaussian ⟨p, q⟩) := by
  have checked := isZero_of_gaussian? (gaussian?_ofRat q)
  simp only [makeComplex, simplest_of_gaussian? left, simplest_of_gaussian? right,
    ofGaussian_ofRat, checked]
  by_cases zero : q = 0
  · subst zero
    simp [ofGaussian]
  · have nonzero : Gaussian.ofRat q ≠ 0 := fun same => zero (congrArg Gaussian.re same)
    simp [nonzero]

end ExactRoots.Value
