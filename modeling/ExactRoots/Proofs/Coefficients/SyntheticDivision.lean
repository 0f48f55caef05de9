import ExactRoots.Proofs.Coefficients.Division
import ExactRoots.Proofs.Coefficients.Evaluation

/-!
# Dividing out a root

Dividing by a monic linear polynomial runs through Horner's rule: closing a column
makes the next one an accumulator.  The last accumulator, which is the value at the
root, is left as the remainder, and those before it are the quotient.
-/

namespace ExactRoots

open Polynomial Outcome

namespace Gaussian

/-- The accumulators of Horner's rule after each coefficient, from the accumulator `u` on. -/
def accumulators (r : Gaussian) : Gaussian → List Gaussian → List Gaussian
  | _, [] => []
  | u, v :: vs => (u * r + v) :: accumulators r (u * r + v) vs

end Gaussian

namespace Coefficients

open Value

/-- The accumulators of Horner's rule after each coefficient, from an accumulator on. -/
def accumulators (x : Value) : (acc : Value) → Coefficients → Except Fault Coefficients
  | _, [] => .ok []
  | acc, c :: cs => do
    let next ← (← acc.mul x).add c
    return next :: (← accumulators x next cs)

/-- Horner's rule ends in its last accumulator. -/
theorem hornerFrom_eq_getLastD (x acc : Value) (cs : Coefficients) :
    hornerFrom x acc cs = (accumulators x acc cs).map (·.getLastD acc) := by
  induction cs generalizing acc with
  | nil => rfl
  | cons c cs ih =>
    rw [hornerFrom, accumulators]
    rcases acc.mul x with fault | product
    · rfl
    rcases sum : product.add c with fault | next
    · simp [sum, Except.map]
    · simp only [ok_bind, sum, ih]
      rcases accumulators x next cs with fault | rest
      · rfl
      · cases rest <;> rfl

section Exact

variable {cs : Coefficients} {x acc : Value} {r u : Gaussian}

theorem accumulators_computes (exact : cs.AllGaussian) (point : x.gaussian? = some r)
    (start : acc.gaussian? = some u) :
    ∃ accs : Coefficients, accumulators x acc cs = .ok accs ∧ accs.AllGaussian ∧
      accs.numbers = Gaussian.accumulators r u cs.numbers := by
  induction cs generalizing acc u with
  | nil => exact ⟨[], rfl, by simp [AllGaussian], rfl⟩
  | cons c cs ih =>
    obtain ⟨first, rest⟩ := List.forall_mem_cons.mp exact
    rcases mul_computes start point with ⟨product, multiplied, productNumber⟩
    rcases add_computes productNumber first.gaussian?_eq with ⟨next, added, nextNumber⟩
    rcases ih rest nextNumber with ⟨accs, computed, accsExact, numbers⟩
    refine ⟨next :: accs, ?_, ?_, ?_⟩
    · simp [accumulators, multiplied, added, computed]
    · exact List.forall_mem_cons.mpr ⟨by simp [IsGaussian, nextNumber], accsExact⟩
    · rw [numbers_cons, numbers, number_of_gaussian? nextNumber]
      rfl

/-- Subtracting a multiple of a monic linear divisor changes the next column alone. -/
theorem subtractMultiple_root (r u v : Gaussian) (row : Coefficients) :
    subtractMultiple (.ofGaussian u) [.ofGaussian (-r)] (.ofGaussian v :: row) =
      .ok (.ofGaussian (u * r + v) :: row) := by
  rcases neg_computes (gaussian?_ofGaussian (-r)) with ⟨negated, negation, negatedNumber⟩
  rcases mul_computes (gaussian?_ofGaussian u) negatedNumber with
    ⟨product, multiplied, productNumber⟩
  rcases add_computes (gaussian?_ofGaussian v) productNumber with ⟨sum, added, sumNumber⟩
  rw [neg_neg, add_comm] at sumNumber
  simp [subtractMultiple, negation, multiplied, added, simplest_of_gaussian? sumNumber]

/-- A row that is divided by a monic linear polynomial turns into the accumulators of Horner's
rule at its root. -/
theorem divideRow_root {quotient us : List Gaussian} {w : Gaussian}
    (split : u :: Gaussian.accumulators r u us = quotient ++ [w]) :
    divideRow (.ofGaussian 1) [.ofGaussian (-r)] us.length (ofGaussians (u :: us)) =
      .ok ⟨ofGaussians quotient, [.ofGaussian w]⟩ := by
  induction us generalizing u quotient with
  | nil =>
    rw [Gaussian.accumulators, eq_comm, List.append_eq_singleton_iff] at split
    rcases split with ⟨rfl, same⟩ | ⟨-, none⟩
    · cases same
      rfl
    · contradiction
  | cons v vs ih =>
    rcases quotient with _ | ⟨q, quotient⟩
    · simp [Gaussian.accumulators] at split
    · rw [List.cons_append, List.cons.injEq, Gaussian.accumulators] at split
      rcases split with ⟨rfl, split⟩
      rw [ofGaussians_cons, List.length_cons, divideRow_succ_ofGaussian one_ne_zero, div_one,
        ofGaussians_cons, subtractMultiple_root, ok_bind, ← ofGaussians_cons, ih split]
      rfl

theorem divide_ofGaussian_root {quotient : List Gaussian} {w : Gaussian} (exact : cs.AllGaussian)
    (long : 2 ≤ cs.length) (split : Gaussian.accumulators r 0 cs.numbers = quotient ++ [w]) :
    divide cs [.int 1, .ofGaussian (-r)] = .ok ⟨ofGaussians quotient, [.ofGaussian w]⟩ := by
  have canonical : [.int 1, .ofGaussian (-r)] = ofGaussians [1, -r] := rfl
  have stripped : Gaussian.strip (ofGaussians [1, -r]).numbers = [1, -r] := by
    simp [Gaussian.strip, numbers]
  obtain ⟨c, lower, rfl⟩ : ∃ c lower, cs = c :: lower :=
    List.exists_cons_of_length_pos (by omega)
  rw [numbers_cons, Gaussian.accumulators, zero_mul, zero_add] at split
  rw [canonical, divide_eq_divideBy exact (allGaussian_ofGaussians _) stripped,
    divideBy_row le_rfl (by simpa [Nat.succ_le_iff] using long), numbers_cons, List.length_cons,
    List.length_singleton, Nat.add_sub_cancel]
  exact divideRow_root split

end Exact

/-- Dividing exact coefficients by `x - r` yields the accumulators of Horner's rule at `r`:
the last one, the value at `r`, is the remainder, and the others are the quotient. -/
theorem divide_root {cs : Coefficients} {r : Value} (exact : cs.AllGaussian)
    (point : r.IsGaussian) (long : 2 ≤ cs.length) :
    ∃ (negated value : Value) (accs : Coefficients), r.neg = .ok negated ∧
      accumulators r (.int 0) cs = .ok (accs ++ [value]) ∧ horner cs r = .ok value ∧
      divide cs [.int 1, negated.simplest] = .ok ⟨accs.simplest, [value.simplest]⟩ ∧
      ([value.simplest] = [.int 0] ↔ cs.polynomial.IsRoot r.number) := by
  rcases neg_computes point.gaussian?_eq with ⟨negated, negation, negatedNumber⟩
  have start : (Value.int 0).gaussian? = some 0 := rfl
  rcases accumulators_computes exact point.gaussian?_eq start with
    ⟨all, computed, allExact, numbers⟩
  have some : all ≠ [] := by
    rintro rfl
    rcases cs with _ | ⟨c, lower⟩
    · simp at long
    · simp [Gaussian.accumulators, Coefficients.numbers] at numbers
  obtain ⟨accs, value, rfl⟩ : ∃ accs value, all = accs ++ [value] :=
    ⟨all.dropLast, all.getLast some, (List.dropLast_append_getLast _).symm⟩
  have accsExact : AllGaussian accs := fun a member => allExact a (by simp [member])
  have valueExact : value.IsGaussian := allExact value (by simp)
  have evaluated : horner cs r = .ok value := by
    have unmixed : isMixed (r :: cs) = false :=
      isMixed_of_gaussian (List.forall_mem_cons.mpr ⟨point, exact⟩)
    simp [horner, unmixed, hornerFrom_eq_getLastD, computed, Except.map]
  refine ⟨negated, value, accs, negation, computed, evaluated, ?_, ?_⟩
  · have split : Gaussian.accumulators r.number 0 cs.numbers =
        Coefficients.numbers accs ++ [value.number] := by
      rw [← numbers, Coefficients.numbers, List.map_append]
      rfl
    rw [simplest_of_gaussian? negatedNumber, divide_ofGaussian_root exact long split,
      simplest_eq_ofGaussians accsExact, simplest_of_gaussian? valueExact.gaussian?_eq]
  · have same : value.simplest = .ofGaussian (eval r.number cs.polynomial) := by
      have simplified := evaluate_of_gaussian? exact point.gaussian?_eq
      rw [evaluate, evaluated] at simplified
      exact Except.ok.inj simplified
    rw [same, IsRoot, List.singleton_inj, ← ofGaussian_zero, ofGaussian_injective.eq_iff]

/-- A fraction divides out of coefficients of every kind. -/
theorem divide_root_mixed :
    let cs : Coefficients := [.int 3, .frac (1 / 2), .exact 0 1 (by decide), .int 5]
    let r : Value := .frac (1 / 3)
    cs.AllGaussian ∧ r.IsGaussian ∧ 2 ≤ cs.length ∧
      ∃ (negated value : Value) (accs : Coefficients), r.neg = .ok negated ∧
        accumulators r (.int 0) cs = .ok (accs ++ [value]) ∧ horner cs r = .ok value ∧
        divide cs [.int 1, negated.simplest] = .ok ⟨accs.simplest, [value.simplest]⟩ ∧
        ([value.simplest] = [.int 0] ↔ cs.polynomial.IsRoot r.number) := by
  intro cs r
  have exact : cs.AllGaussian := by simp [AllGaussian, cs, IsGaussian, gaussian?]
  have point : r.IsGaussian := rfl
  have long : 2 ≤ cs.length := by simp [cs]
  exact ⟨exact, point, long, divide_root exact point long⟩

end Coefficients

end ExactRoots
