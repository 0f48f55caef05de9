/-!
# Integer square roots

The floor of the square root of a natural number, by Newton's iteration from
above.  Each step strictly decreases the guess, so the iteration ends.
-/

namespace ExactRoots

/-- Newton's iteration: improve the guess while it decreases. -/
def floorSqrt.improve (n guess : Nat) : Nat :=
  let next := (guess + n / guess) / 2
  if next < guess then improve n next else guess
termination_by guess

/-- The largest natural number whose square is at most `n`. -/
def floorSqrt (n : Nat) : Nat :=
  if n ≤ 1 then n else floorSqrt.improve n (1 <<< (n.log2 / 2 + 1))

/-- The root of a perfect square. -/
def squareRoot? (n : Nat) : Option Nat :=
  let root := floorSqrt n
  if root * root = n then some root else none

/-- A root that is found is a root. -/
theorem mul_self_of_squareRoot?_eq_some {n root : Nat} (found : squareRoot? n = some root) :
    root * root = n := by
  simp only [squareRoot?] at found
  split at found
  next square => rw [← Option.some.inj found]; exact square
  next => contradiction

end ExactRoots
