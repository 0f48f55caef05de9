import ExactRoots.Fault

/-!
# Settings

The budget of a search and the limits of deflation.  The ranges are hints: they
bound the window that the random search samples from, and never the estimate
itself.
-/

namespace ExactRoots

/-- Settings of the search and of deflation. -/
structure Settings where
  iterations : Nat := 150
  loops : Nat := 3
  tolerance : Float := 1e-13
  realRange : Option (Float × Float) := none
  imagRange : Option (Float × Float) := none
  maxDenominator : Nat := 100000
  snapDigits : Nat := 12
  remainderTolerance : Float := 1e-6
  deriving DecidableEq

namespace Settings

/-- What every field of valid settings satisfies. -/
structure Valid (s : Settings) : Prop where
  iterations_pos : 0 < s.iterations
  loops_pos : 0 < s.loops
  tolerance_pos : 0.0 < s.tolerance
  maxDenominator_pos : 0 < s.maxDenominator
  remainderTolerance_pos : 0.0 < s.remainderTolerance
  realRange_ordered : ∀ low high, s.realRange = some (low, high) → ¬ high < low
  imagRange_ordered : ∀ low high, s.imagRange = some (low, high) → ¬ high < low

/-- The default settings are valid. -/
theorem valid_default : ({} : Settings).Valid where
  iterations_pos := by decide
  loops_pos := by decide
  tolerance_pos := by decide
  maxDenominator_pos := by decide
  remainderTolerance_pos := by decide
  realRange_ordered := by simp
  imagRange_ordered := by simp

end Settings

end ExactRoots
