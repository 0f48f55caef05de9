import ExactRoots.Search.State
import ExactRoots.Value.Rounding

/-!
# Snapping

The estimate is rounded to ever fewer decimals while the value does not grow.
This recovers integer and short decimal roots that floating-point drift has
pushed slightly off.
-/

namespace ExactRoots.Search

/-- The numbers of decimals that are tried, in order. -/
def snapPlaces : List Nat := (List.range 16).reverse

/-- Offer the estimate rounded to each number of decimals until a zero is
found; ties are taken. -/
def snapFrom (f : ScalarFunction) (best : Best) : List Nat → Except Fault Best
  | [] => .ok best
  | places :: rest => do
    if best.y.isZero then return best
    let candidate ← (← Value.round places (.inexact best.x)).toInexact
    snapFrom f (best.offerTie candidate (← evaluate f candidate)) rest

/-- The strategy of snapping a finite estimate. -/
def snap (f : ScalarFunction) (state : State) : Except Fault State := do
  if state.x.isFinite then
    return state.settle (← snapFrom f (.start state.x state.y) snapPlaces)
  else return state

end ExactRoots.Search
