import ExactRoots.Proofs.Deflation.Normal

/-!
# What snapping keeps

A root is replaced only by a candidate that fits the polynomial at least as well, and no candidate
fits it better than what is kept.  The candidates for the place of a root of an exact polynomial are
exact themselves, and an exact root has no other candidate than itself, so snapping such a root
again changes nothing.
-/

namespace ExactRoots

namespace Value

open Outcome

/-! ## Exact candidates -/

theorem NormalOrFlat.settled {v : Value} (form : v.NormalOrFlat) : v.Settled := by
  rcases form with normal | ⟨x, y, rfl, -⟩
  · exact (normal_iff.mp normal).2.2.2
  · simp [Settled]

/-- An exact value that is worked out is an integer, a fraction or an exact complex number. -/
theorem isGaussian_of_isExact {v : Value} (settled : v.Settled) (exact : v.isExact = true) :
    v.IsGaussian := by
  cases v with
  | int | frac | exact => rfl
  | inexact x =>
    obtain x | ⟨re, im⟩ := x
    · contradiction
    · by_cases zero : (im == 0.0) = true <;>
        simp [isExact, tidy, simplify, ofFloat, zero] at exact
  | formal e => exact absurd rfl (settled e)
  | decimal | text | absent => contradiction

/-- A result that is exact is the canonical value of its number. -/
theorem NormalOrFlat.eq_ofGaussian {v : Value} (form : v.NormalOrFlat) (exact : v.IsGaussian) :
    v = ofGaussian v.number := by
  rcases form with normal | ⟨x, y, rfl, -⟩
  · exact normal.symm.trans (simplest_of_gaussian? exact.gaussian?_eq)
  · contradiction

/-- An exact value stays as it is. -/
theorem nearestRational_ofGaussian (bound : Int) (u : Gaussian) :
    nearestRational bound (ofGaussian u) = .ok (ofGaussian u) := by
  have denoted := gaussian?_ofGaussian u
  have stays (q : Rat) : nearestReal bound (ofRat q) = .ok (ofRat q) := by
    unfold ofRat
    split <;> rfl
  rw [nearestRational, realPart_of_gaussian? denoted, imagPart_of_gaussian? denoted, stays, stays]
  exact makeComplex_of_gaussian? (gaussian?_ofRat u.re) (gaussian?_ofRat u.im)

end Value

namespace Deflation

open Value Outcome

section Snapping

variable {s : Settings} {cs : Coefficients} {exact : Bool} {root result : Value}

/-- Every candidate for the place of a root of an exact polynomial is exact. -/
theorem candidates_isGaussian {offered : List Value}
    (listed : candidates s true root = .ok offered) : ∀ v ∈ offered, v.IsGaussian := by
  intro v member
  have settled : v.Settled := (normalOrFlat_candidates offered listed v member).settled
  rcases candidate_cases listed member with ⟨-, isExact, -⟩ | ⟨inexact, -⟩
  · exact isGaussian_of_isExact settled isExact
  · contradiction

/-- Snapping ends with the root itself, if no candidate fits the polynomial as well, or with a
candidate that fits it at least as well as the root does, and no candidate fits it better.  Where
exact values are wanted the candidate is exact. -/
theorem snapRoot_keeps_best (returned : snapRoot s cs exact root = .ok result) :
    ∃ baseline size offered, residual cs root = .ok baseline ∧ residual cs result = .ok size ∧
      candidates s exact root = .ok offered ∧
      (result = root ∧ (∀ v ∈ offered, ∀ other, residual cs v = .ok other → ¬ other ≤ baseline) ∨
        result ∈ offered ∧ size ≤ baseline) ∧
      (exact = true → result ∈ offered → result.IsGaussian) ∧
      (baseline.isNaN = false → size ≤ baseline) ∧
      ∀ v ∈ offered, ∃ other, residual cs v = .ok other ∧ ¬ other < size := by
  rcases exists_isBest_of_snapRoot returned with
    ⟨baseline, offered, best, measured, listed, spec, rfl⟩
  refine ⟨baseline, best.size, offered, measured, spec.measured, listed, ?choice, ?exact, ?noWorse,
    spec.least⟩
  case choice =>
    rcases spec.origin with ⟨rfl, unmatched⟩ | replaced
    · exact .inl ⟨rfl, unmatched⟩
    · exact .inr replaced
  case exact =>
    rintro rfl member
    exact candidates_isGaussian listed _ member
  case noWorse =>
    intro number
    rcases spec.origin with ⟨rfl, -⟩ | ⟨-, noWorse⟩
    · exact Binary64.le_refl number
    · exact noWorse

/-- With two decimals `0.3333333333` is recovered as 33 hundredths, which fit `3 * x - 1` worse than
it does, and the nearest fraction takes its place. -/
theorem snapRoot_keeps_best_third :
    let s : Settings := { snapDigits := 2 }
    let cs : Coefficients := [.int 3, .int (-1)]
    snapRoot s cs true (.float 0.3333333333) = .ok (.frac (1 / 3)) ∧
      candidates s true (.float 0.3333333333) = .ok [.frac (33 / 100), .frac (1 / 3)] ∧
      ∃ baseline size other, residual cs (.float 0.3333333333) = .ok baseline ∧
        residual cs (.frac (1 / 3)) = .ok size ∧ residual cs (.frac (33 / 100)) = .ok other ∧
        size ≤ baseline ∧ ¬ other < size ∧ (Value.frac (1 / 3)).IsGaussian := by
  intro s cs
  have returned : snapRoot s cs true (.float 0.3333333333) = .ok (.frac (1 / 3)) :=
    toOption_eq_some_iff.mp (by decide +kernel)
  have listed : candidates s true (.float 0.3333333333) =
      .ok [.frac (33 / 100), .frac (1 / 3)] :=
    toOption_eq_some_iff.mp (by decide +kernel)
  rcases snapRoot_keeps_best returned with
    ⟨baseline, size, offered, measured, measured', listed', choice, rational, -, least⟩
  obtain rfl := Except.ok.inj (listed.symm.trans listed')
  have member : Value.frac (1 / 3) ∈ [Value.frac (33 / 100), Value.frac (1 / 3)] :=
    List.mem_cons_of_mem _ List.mem_cons_self
  rcases least _ List.mem_cons_self with ⟨other, evaluated, notLess⟩
  rcases choice with ⟨same, -⟩ | ⟨-, noWorse⟩
  · contradiction
  · exact ⟨returned, listed, baseline, size, other, measured, measured', evaluated, noWorse, notLess,
      rational rfl member⟩

/-! ## Exact roots -/

/-- An exact root is each of its candidates. -/
theorem candidates_ofGaussian (s : Settings) (u : Gaussian) :
    candidates s true (ofGaussian u) = .ok [ofGaussian u, ofGaussian u] := by
  simp [candidates, recover_ofGaussian, nearestRational_ofGaussian]

/-- An exact root stays, if its residual can be computed. -/
theorem snapRoot_ofGaussian {u : Gaussian} {size : Float}
    (measured : residual cs (ofGaussian u) = .ok size) :
    snapRoot s cs true (ofGaussian u) = .ok (ofGaussian u) := by
  have stays (c : Choice) (same : c.value = ofGaussian u) :
      (c.offer (ofGaussian u) size).value = ofGaussian u := by
    unfold Choice.offer
    split
    · rfl
    · exact same
  simp only [snapRoot, choose, measured, candidates_ofGaussian, ok_bind, pure_eq_ok]
  rw [stays _ (stays _ rfl)]

/-- Snapping a root of an exact polynomial again changes nothing. -/
theorem snapRoot_snapRoot (returned : snapRoot s cs true root = .ok result) :
    snapRoot s cs true result = .ok result := by
  rcases exists_isBest_of_snapRoot returned with ⟨baseline, offered, best, -, listed, spec, rfl⟩
  rcases spec.origin with ⟨rfl, -⟩ | ⟨member, -⟩
  · exact returned
  · have canonical : best.value = ofGaussian best.value.number :=
      (normalOrFlat_candidates offered listed _ member).eq_ofGaussian
        (candidates_isGaussian listed _ member)
    have measured := spec.measured
    rw [canonical] at measured ⊢
    exact snapRoot_ofGaussian measured

end Snapping

end Deflation

end ExactRoots
