import ExactRoots.Proofs.Deflation.Chain
import ExactRoots.Proofs.Value.Normal

/-!
# Results in normal form

What the arithmetic of the library returns is in normal form, or a flat complex number
whose imaginary part was too small for a double.  A division of decimals beside other
kinds also returns doubles of its dividend as they are: the first coefficient of a quotient
by a monic divisor, and the remainder by a divisor that is longer than the dividend.
-/

namespace ExactRoots

open Outcome Value

namespace Coefficients

/-- Whether a list holds a decimal beside a value that it does not mix with. -/
def Coerces (vs : Coefficients) : Prop := vs.any isDecimal = true ∧ ¬ ∀ v ∈ vs, v.Mixes

/-- Whether a value is the double, or the floating complex number, of a coefficient. -/
def CoercedFrom (cs : Coefficients) (v : Value) : Prop :=
  ∃ c ∈ cs, ∃ x, c.simplest.toInexact = .ok x ∧ v = .inexact x

theorem exists_of_forall₂ {α β : Type} {R : α → β → Prop} {as : List α} {bs : List β}
    (related : List.Forall₂ R as bs) {b : β} (member : b ∈ bs) : ∃ a ∈ as, R a b := by
  induction related with
  | nil => contradiction
  | cons head _ ih =>
    rcases List.mem_cons.mp member with rfl | member
    · exact ⟨_, List.mem_cons_self, head⟩
    · rcases ih member with ⟨a, listed, related⟩
      exact ⟨a, List.mem_cons_of_mem _ listed, related⟩

/-- A list is coerced in full or stays as it is. -/
theorem coerceDecimals_cases {vs ws : Coefficients} (coerced : coerceDecimals vs = .ok ws) :
    ws = vs ∨ Coerces vs ∧
      List.Forall₂ (fun v w => ∃ x, v.toInexact = .ok x ∧ w = .inexact x) vs ws := by
  by_cases mixes : ∀ v ∈ vs, v.Mixes
  · rw [coerceDecimals_of_mixes mixes] at coerced
    cases coerced
    exact .inl rfl
  by_cases decimal : vs.any isDecimal = true
  · unfold coerceDecimals at coerced
    dsimp only at coerced
    split at coerced
    next =>
      cases coerced
      exact .inl rfl
    next =>
      refine .inr ⟨⟨decimal, mixes⟩, (mapM_eq_ok_iff.mp coerced).imp ?_⟩
      intro v w converted
      rcases map_eq_ok_iff.mp converted with ⟨x, inexact, rfl⟩
      exact ⟨x, inexact, rfl⟩
  · rw [Bool.not_eq_true, any_isDecimal_eq_false_iff] at decimal
    rw [coerceDecimals_of_plain decimal] at coerced
    cases coerced
    exact .inl rfl

/-! ## Division -/

theorem subtractMultiple_normalOrFlat {q : Value} {ds cs row : Coefficients}
    (long : ds.length ≤ cs.length) (subtracted : subtractMultiple q ds cs = .ok row) :
    row.length = cs.length ∧ ∀ v ∈ row.take ds.length, v.NormalOrFlat := by
  induction ds generalizing cs row with
  | nil =>
    cases subtracted
    simp
  | cons d ds ih =>
    cases cs with
    | nil => simp at long
    | cons c cs =>
      rw [subtractMultiple] at subtracted
      simp only [bind_eq_ok_iff] at subtracted
      rcases subtracted with ⟨negated, -, product, -, sum, -, rest, subtracted, same⟩
      cases same
      rcases ih (by simpa using long) subtracted with ⟨length, normal⟩
      constructor
      · rw [List.length_cons, length, List.length_cons]
      · rw [List.length_cons, List.take_succ_cons, List.forall_mem_cons]
        exact ⟨normalOrFlat_simplest sum, normal⟩

/-- Closing a column keeps its coefficient or divides it, and goes on with a row whose next columns
are in normal form. -/
theorem divideRow_column {lead c : Value} {lower cs : Coefficients} {steps : Nat} {d : Division}
    (length : cs.length = steps + lower.length)
    (divided : divideRow lead lower (steps + 1) (c :: cs) = .ok d) :
    ∃ q row rest, d = ⟨q :: rest.quotient, rest.remainder⟩ ∧
      (lead.equals (.int 1) = .ok true ∧ q = c ∨ q.NormalOrFlat) ∧
      row.length = steps + lower.length ∧ (∀ v ∈ row.take lower.length, v.NormalOrFlat) ∧
      divideRow lead lower steps row = .ok rest := by
  have rowOf {q : Value} {row : Coefficients} (subtracted : subtractMultiple q lower cs = .ok row) :
      row.length = steps + lower.length ∧ ∀ v ∈ row.take lower.length, v.NormalOrFlat := by
    rcases subtractMultiple_normalOrFlat (by omega) subtracted with ⟨rowLength, normal⟩
    exact ⟨rowLength.trans length, normal⟩
  rw [divideRow] at divided
  rcases bind_eq_ok_iff.mp divided with ⟨monic, checked, divided⟩
  cases monic with
  | true =>
    simp only [if_true, pure_eq_ok, ok_bind, bind_eq_ok_iff] at divided
    rcases divided with ⟨row, subtracted, rest, later, same⟩
    cases same
    rcases rowOf subtracted with ⟨rowLength, normal⟩
    exact ⟨c, row, rest, rfl, .inl ⟨checked, rfl⟩, rowLength, normal, later⟩
  | false =>
    simp only [Bool.false_eq_true, if_false, bind_eq_ok_iff] at divided
    rcases divided with ⟨q, closed, row, subtracted, rest, later, same⟩
    cases same
    rcases rowOf subtracted with ⟨rowLength, normal⟩
    exact ⟨q, row, rest, rfl, .inr (normalOrFlat_quo c lead q closed), rowLength, normal, later⟩

/-- From a row whose first columns are in normal form all results are. -/
theorem divideRow_normalOrFlat {lead : Value} {lower row : Coefficients} {steps : Nat}
    {d : Division} (nonempty : lower ≠ []) (length : row.length = steps + lower.length)
    (normal : ∀ v ∈ row.take lower.length, v.NormalOrFlat)
    (divided : divideRow lead lower steps row = .ok d) :
    ∀ v ∈ d.quotient ++ d.remainder, v.NormalOrFlat := by
  induction steps generalizing row d with
  | zero =>
    cases divided
    rw [zero_add] at length
    rwa [← length, List.take_length] at normal
  | succ steps ih =>
    cases row with
    | nil =>
      rw [List.length_nil] at length
      omega
    | cons c cs =>
      obtain ⟨first, others, rfl⟩ := List.exists_cons_of_ne_nil nonempty
      rw [List.length_cons, List.take_succ_cons, List.forall_mem_cons] at normal
      rcases divideRow_column (by simpa [Nat.succ_add] using length) divided with
        ⟨q, row, rest, rfl, closed, rowLength, rowNormal, divided⟩
      rw [List.cons_append, List.forall_mem_cons]
      constructor
      · rcases closed with ⟨-, rfl⟩ | closed
        · exact normal.1
        · exact closed
      · exact ih rowLength rowNormal divided

/-- Whether the divisor's first coefficient is one when it is coerced. -/
def CoercedMonic (divisor : Coefficients) : Prop :=
  ∃ lead x, divisor.head? = some lead ∧ lead.toInexact = .ok x ∧
    (Value.inexact x).equals (.int 1) = .ok true

/-- Whether the results of a division are in normal form or flat, but for doubles of the dividend: the
first coefficient of the quotient by a monic divisor, and the remainder by a longer divisor, where
coefficients are coerced. -/
structure DividesNormally (dividend divisor : Coefficients) (d : Division) : Prop where
  first : ∀ q ∈ d.quotient.head?, q.NormalOrFlat ∨
    Coerces (dividend.simplest ++ divisor) ∧ CoercedMonic divisor ∧ CoercedFrom dividend q
  others : ∀ q ∈ d.quotient.tail, q.NormalOrFlat
  remainder : ∀ r ∈ d.remainder, r.NormalOrFlat ∨
    Coerces (dividend.simplest ++ divisor) ∧ dividend.length < divisor.length ∧
      CoercedFrom dividend r

theorem DividesNormally.of_normalOrFlat {dividend divisor : Coefficients} {d : Division}
    (normal : ∀ v ∈ d.quotient ++ d.remainder, v.NormalOrFlat) :
    DividesNormally dividend divisor d where
  first q member := .inl (normal q (List.mem_append_left _ (List.mem_of_mem_head? member)))
  others q member := normal q (List.mem_append_left _ (List.mem_of_mem_tail member))
  remainder r member := .inl (normal r (List.mem_append_right _ member))

theorem normalOrFlat_int (n : Int) : (int n).NormalOrFlat := .inl rfl

/-- From a dividend in normal form all results of a division are. -/
theorem divideBy_normalOrFlat {dividend lower : Coefficients} {lead : Value} {d : Division}
    (normal : ∀ v ∈ dividend, v.NormalOrFlat) (divided : divideBy dividend lead lower = .ok d) :
    ∀ v ∈ d.quotient ++ d.remainder, v.NormalOrFlat := by
  unfold divideBy at divided
  split at divided
  next short =>
    cases divided
    dsimp only
    rw [List.singleton_append, List.forall_mem_cons]
    refine ⟨normalOrFlat_int 0, ?_⟩
    split
    · simpa using normalOrFlat_int 0
    · exact normal
  next long =>
    split at divided
    next =>
      rcases bind_eq_ok_iff.mp divided with ⟨quotients, mapped, same⟩
      cases same
      have each : ∀ q ∈ quotients, q.NormalOrFlat :=
        Yields.mapM (fun c _ => normalOrFlat_quo c lead) quotients mapped
      rw [List.forall_mem_append]
      exact ⟨each, by simpa using normalOrFlat_int 0⟩
    next nonempty =>
      exact divideRow_normalOrFlat (by simpa using nonempty) (by omega)
        (fun v member => normal v (List.mem_of_mem_take member)) divided

/-- From a dividend of doubles only the first coefficient of a quotient by a monic divisor, and a
remainder by a longer divisor, are such doubles. -/
theorem divideBy_coerced {P : Value → Prop} {dividend lower : Coefficients} {lead : Value}
    {d : Division} (each : ∀ v ∈ dividend, P v) (divided : divideBy dividend lead lower = .ok d) :
    (∀ q ∈ d.quotient.head?, q.NormalOrFlat ∨ lead.equals (.int 1) = .ok true ∧ P q) ∧
      (∀ q ∈ d.quotient.tail, q.NormalOrFlat) ∧
      ∀ r ∈ d.remainder, r.NormalOrFlat ∨ dividend.length ≤ lower.length ∧ P r := by
  unfold divideBy at divided
  split at divided
  next short =>
    cases divided
    refine ⟨?_, by simp, ?_⟩
    · rintro q ⟨⟩
      exact .inl (normalOrFlat_int 0)
    · intro r member
      dsimp only at member
      split at member
      · rw [List.mem_singleton.mp member]
        exact .inl (normalOrFlat_int 0)
      · exact .inr ⟨short, each r member⟩
  next long =>
    split at divided
    next =>
      rcases bind_eq_ok_iff.mp divided with ⟨quotients, mapped, same⟩
      cases same
      have normal : ∀ q ∈ quotients, q.NormalOrFlat :=
        Yields.mapM (fun c _ => normalOrFlat_quo c lead) quotients mapped
      refine ⟨fun q member => .inl (normal q (List.mem_of_mem_head? member)),
        fun q member => normal q (List.mem_of_mem_tail member), fun r member => .inl ?_⟩
      rw [List.mem_singleton.mp member]
      exact normalOrFlat_int 0
    next nonempty =>
      cases dividend with
      | nil => simp at long
      | cons c cs =>
        rw [List.length_cons] at long divided
        obtain ⟨steps, count⟩ : ∃ steps, cs.length + 1 - lower.length = steps + 1 :=
          ⟨cs.length - lower.length, by omega⟩
        rw [count] at divided
        rcases divideRow_column (by omega) divided with
          ⟨q, row, rest, rfl, closed, rowLength, rowNormal, later⟩
        have normal := divideRow_normalOrFlat (by simpa using nonempty) rowLength rowNormal later
        rw [List.forall_mem_append] at normal
        refine ⟨?_, normal.1, fun r member => .inl (normal.2 r member)⟩
        rintro _ ⟨⟩
        rcases closed with ⟨monic, rfl⟩ | closed
        · exact .inr ⟨monic, each q List.mem_cons_self⟩
        · exact .inl closed

/-- The results of a division are in normal form or flat, but for doubles of a coerced dividend. -/
theorem divide_normally {dividend divisor : Coefficients} {d : Division}
    (divided : divide dividend divisor = .ok d) :
    ∃ stripped, divisor.simplest.stripZeros = .ok stripped ∧
      DividesNormally dividend stripped d := by
  have simplest : ∀ v ∈ dividend.simplest, v.NormalOrFlat := by
    intro v member
    rcases List.mem_map.mp member with ⟨c, -, rfl⟩
    exact normalOrFlat_simplest c
  simp only [divide, bind_eq_ok_iff] at divided
  rcases divided with ⟨stripped, strips, mixed, coerced, divided⟩
  refine ⟨stripped, strips, ?_⟩
  have length : dividend.simplest.length = dividend.length := List.length_map _
  split at divided
  next => contradiction
  next lead lower dropped =>
    rcases coerceDecimals_cases coerced with rfl | ⟨coerces, entries⟩
    · rw [List.take_left] at divided
      exact .of_normalOrFlat (divideBy_normalOrFlat simplest divided)
    · have doubles := List.forall₂_take dividend.simplest.length entries
      have others := List.forall₂_drop dividend.simplest.length entries
      rw [List.take_left] at doubles
      rw [List.drop_left, dropped] at others
      have each : ∀ v ∈ mixed.take dividend.simplest.length, CoercedFrom dividend v := by
        intro v member
        rcases exists_of_forall₂ doubles member with ⟨w, listed, x, inexact, rfl⟩
        rcases List.mem_map.mp listed with ⟨c, coefficient, rfl⟩
        exact ⟨c, coefficient, x, inexact, rfl⟩
      have short := doubles.length_eq
      have long := others.length_eq
      rw [List.length_cons] at long
      cases others with
      | cons head rest =>
        rcases head with ⟨x, inexact, rfl⟩
        rcases divideBy_coerced each divided with ⟨first, others, remainder⟩
        constructor
        · intro q member
          refine (first q member).imp_right fun ⟨monic, double⟩ => ?_
          exact ⟨coerces, ⟨_, x, rfl, inexact, monic⟩, double⟩
        · exact others
        · intro r member
          refine (remainder r member).imp_right fun ⟨bounded, double⟩ => ?_
          exact ⟨coerces, by omega, double⟩

/-! ## Closed formulas -/

theorem normalOrFlat_quadraticFormula (a b root : Value) :
    Yields (fun roots => ∀ v ∈ roots, v.NormalOrFlat) (quadraticFormula a b root) := by
  intro roots solved
  unfold quadraticFormula at solved
  simp only [bind_eq_ok_iff] at solved
  rcases solved with ⟨double, -, negated, -, sum, -, first, divided, negated', -, difference, -,
    second, divided', same⟩
  cases same
  simp [normalOrFlat_quo _ _ _ divided, normalOrFlat_quo _ _ _ divided']

theorem normalOrFlat_solveQuadratic (a b c : Value) :
    Yields (fun roots => ∀ v ∈ roots, v.NormalOrFlat) (solveQuadratic a b c) := by
  unfold solveQuadratic
  rw [yields_bind_iff]
  intro coerced _
  split
  next a b c =>
    rw [yields_bind_iff]
    intro zero _
    split
    next =>
      rw [yields_bind_iff]
      intro zero' _
      split
      next => simp
      next =>
        intro roots solved
        simp only [bind_eq_ok_iff] at solved
        rcases solved with ⟨negated, -, root, divided, same⟩
        cases same
        simp [normalOrFlat_quo _ _ _ divided]
    next =>
      intro roots solved
      simp only [bind_eq_ok_iff] at solved
      rcases solved with ⟨square, -, root, -, solved⟩
      split at solved
      next =>
        rcases bind_eq_ok_iff.mp solved with ⟨inexact, -, solved⟩
        split at solved
        next => exact normalOrFlat_quadraticFormula _ _ _ roots solved
        next => contradiction
      next => exact normalOrFlat_quadraticFormula _ _ _ roots solved
  next => exact yields_error _

end Coefficients

namespace Deflation

/-! ## Roots -/

theorem normalOrFlat_candidates {s : Settings} {exact : Bool} {root : Value} :
    Yields (fun simpler => ∀ v ∈ simpler, v.NormalOrFlat) (candidates s exact root) := by
  intro simpler listed v member
  rcases candidate_cases listed member with ⟨-, -, recovery | approximation⟩ | ⟨-, x, rfl⟩
  · exact .inl (normal_recover root v recovery)
  · simp only [nearestRational, bind_eq_ok_iff] at approximation
    rcases approximation with ⟨re, -, im, -, made⟩
    exact normalOrFlat_makeComplex re im v made
  · exact normalOrFlat_simplest _

theorem normalOrFlat_findStep {s : Settings} {exact : Bool} {current : Coefficients} {step : Step}
    (found : findStep s exact current = .ok step) : step.root.NormalOrFlat := by
  simp only [findStep, bind_eq_ok_iff, pure_eq_ok, Except.ok.injEq] at found
  rcases found with ⟨smooth, -, zero, searched, root, snapped, negated, -, divided, -, rfl⟩
  simp only [findOneRoot, bind_eq_ok_iff] at searched
  rcases searched with ⟨start, -, final, -, simplified⟩
  cases simplified
  rcases eq_or_mem_of_snapRoot snapped with ⟨offered, listed, rfl | candidate⟩
  · exact normalOrFlat_simplest _
  · exact normalOrFlat_candidates offered listed _ candidate

theorem normalOrFlat_deflate (s : Settings) (exact : Bool) (current : Coefficients) :
    ∀ step ∈ (deflate s exact current).steps, step.root.NormalOrFlat := by
  fun_induction deflate s exact current with
  | case1 | case2 | case3 => exact List.forall_mem_nil _
  | case4 current long step found shorter checked trace ih =>
    rw [List.forall_mem_cons]
    exact ⟨normalOrFlat_findStep found, ih⟩

theorem normalOrFlat_closing (current : Coefficients) :
    Yields (fun roots => ∀ v ∈ roots, v.NormalOrFlat) (closing current) := by
  unfold closing
  split
  next a b c => exact Coefficients.normalOrFlat_solveQuadratic a b c
  next a b =>
    intro roots solved
    simp only [bind_eq_ok_iff] at solved
    rcases solved with ⟨negated, -, root, divided, same⟩
    cases same
    simp [normalOrFlat_quo _ _ _ divided]
  next => exact yields_error _

theorem normalOrFlat_roots (s : Settings) (cs : Coefficients) :
    Yields (fun roots => ∀ v ∈ roots, v.NormalOrFlat) (cs.roots s) := by
  intro roots returned
  unfold Coefficients.roots run at returned
  split at returned
  next => contradiction
  next current _ =>
    simp only [bind_eq_ok_iff] at returned
    rcases returned with ⟨last, -, closed, closing, sorted⟩
    intro v member
    have listed := (perm_of_sortRoots sorted).mem_iff.mp member
    rcases List.mem_append.mp listed with found | last
    · rcases List.mem_map.mp found with ⟨step, taken, rfl⟩
      exact normalOrFlat_deflate _ _ _ step taken
    · exact normalOrFlat_closing _ closed closing v last

end Deflation

/-- Quotients of worked-out values, roots of integers, fractions and doubles, and fractions from
doubles are in normal form.  The other results are, unless they are flat or, in a division of
coerced coefficients, doubles of the dividend. -/
theorem results_normalOrFlat (s : Settings) (bound places : Int) (a b c v : Value)
    (cs dividend divisor : Coefficients) (d : Division) :
    (makeComplex a b = .ok v → v.NormalOrFlat ∧ (a.Settled → v.Flat →
      b.Vanishes ∧ ¬ (a.simplest.IsRational ∧ b.simplest.IsRational))) ∧
    (quo a b = .ok v → v.NormalOrFlat ∧
      (a.isFormal = false → b.isFormal = false → v.Normal)) ∧
    (sqrt a = .ok v → v.NormalOrFlat ∧ (a.RationalOrFloat → v.Normal)) ∧
    (recover bound places a = .ok v → v.Normal) ∧
    (Coefficients.divide dividend divisor = .ok d →
      ∃ stripped, divisor.simplest.stripZeros = .ok stripped ∧
        Coefficients.DividesNormally dividend stripped d) ∧
    (∀ roots, solveQuadratic a b c = .ok roots → ∀ v ∈ roots, v.NormalOrFlat) ∧
    ∀ roots, cs.roots s = .ok roots → ∀ v ∈ roots, v.NormalOrFlat := by
  constructor
  · intro made
    refine ⟨normalOrFlat_makeComplex a b v made, fun settled flat => ?_⟩
    rcases makeComplex_normal_or_flat made with ⟨rfl, -⟩ | normal | ⟨-, vanishes⟩
    · exact absurd (normal_simplest settled) (not_normal_of_flat flat)
    · exact absurd normal (not_normal_of_flat flat)
    · exact vanishes
  constructor
  · intro divided
    exact ⟨normalOrFlat_quo a b v divided, fun left right => normal_quo left right v divided⟩
  constructor
  · intro rooted
    exact ⟨normalOrFlat_sqrt a v rooted, fun real => normal_sqrt real v rooted⟩
  constructor
  · exact normal_recover a v
  constructor
  · exact Coefficients.divide_normally
  · exact ⟨Coefficients.normalOrFlat_solveQuadratic a b c, Deflation.normalOrFlat_roots s cs⟩

/-- The roots of x² - 4 are in normal form. -/
theorem results_normalOrFlat_square :
    solveQuadratic (.int 1) (.int 0) (.int (-4)) = .ok [.int 2, .int (-2)] ∧
      ∀ v ∈ [int 2, int (-2)], v.NormalOrFlat := by
  have solved : solveQuadratic (.int 1) (.int 0) (.int (-4)) =
      .ok [.int 2, .int (-2)] := by decide +kernel
  exact ⟨solved, (results_normalOrFlat {} 0 0 (.int 1) (.int 0) (.int (-4)) (.int 0) [] [] []
    ⟨[], []⟩).2.2.2.2.2.1 _ solved⟩

/-- A dividend with a decimal is the remainder by a longer divisor as doubles, which are not in
normal form where they are integers. -/
theorem divide_remainder_not_normal :
    Coefficients.divide [.decimal (.ofInt 2), .float 0.5] [.int 1, .int 1, .int 1] =
      .ok ⟨[.int 0], [.float 2.0, .float 0.5]⟩ ∧ ¬ (Value.float 2.0).NormalOrFlat := by
  constructor
  · decide
  · have whole : (Value.float 2.0).simplest = .int 2 := by decide
    rintro (normal | ⟨x, y, same, -⟩)
    · rw [Value.Normal, whole] at normal
      contradiction
    · cases same

end ExactRoots
