import ExactRoots.Binary64.Dyadic

/-!
# Neighbouring doubles

The doubles of one sign are ordered by their bit patterns, so the next double
in a direction is one pattern away.
-/

namespace ExactRoots.Binary64

/-- The least double above `x`; infinity and NaN are their own. -/
def above (x : Float) : Float :=
  let bits := x.toBits
  if x.isNaN then x
  else if x == 0.0 then Float.ofBits 1
  else if isNegative x then Float.ofBits (bits - 1)
  else if bits == 0x7ff0000000000000 then x
  else Float.ofBits (bits + 1)

/-- The greatest double below `x`. -/
def below (x : Float) : Float :=
  -(above (-x))

/-- `x` followed by the `count` nearest doubles on either side, the lower of
each pair first. -/
def neighbors (x : Float) (count : Nat) : List Float :=
  x :: pairs x x count
where
  /-- The pairs further out than `low` and `high`. -/
  pairs (low high : Float) : Nat → List Float
    | 0 => []
    | count + 1 => below low :: above high :: pairs (below low) (above high) count

end ExactRoots.Binary64
