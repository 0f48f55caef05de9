import ExactRoots.Fault

/-!
# A reproducible source of random numbers

A linear congruential generator on 128-bit states whose output word is a
rotation of the two halves of the state.  A 32-bit seed is spread over the
state and the increment by hashing, so that nearby seeds give unrelated
streams, and equal seeds give equal ones.
-/

namespace ExactRoots

/-- A generator: its state and its odd increment, both below `2 ^ 128`. -/
structure Generator where
  state : Nat
  increment : Nat
  deriving DecidableEq, Repr

namespace Generator

/-- The modulus of the state. -/
def modulus : Nat := Nat.pow 2 128

/-- The multiplier of the recurrence. -/
def multiplier : Nat := 0x2360ed051fc65da44385df649fccf645

/-- Fold the upper half of a word into the lower one. -/
def fold (v : UInt32) : UInt32 := v ^^^ (v >>> 16)

/-- Hash one word; the constant moves on with every word. -/
def hashWord (factor constant v : UInt32) : UInt32 × UInt32 :=
  let next := constant * factor
  (fold ((v ^^^ constant) * next), next)

/-- Hash a list of words with a moving constant. -/
def hashWords (factor : UInt32) : UInt32 → List UInt32 → List UInt32 × UInt32
  | constant, [] => ([], constant)
  | constant, v :: vs =>
    let (word, next) := hashWord factor constant v
    let (words, last) := hashWords factor next vs
    (word :: words, last)

/-- Mix two words. -/
def mix (x y : UInt32) : UInt32 :=
  fold (0xca01f9dd * x - 0x4973f715 * y)

/-- The factor of the constant while the pool is filled. -/
def poolFactor : UInt32 := 0x931e8875

/-- Mix one word of the pool into another. -/
def mixInto (pool : List UInt32) (constant : UInt32) (source target : Nat) :
    List UInt32 × UInt32 :=
  let (word, next) := hashWord poolFactor constant (pool.getD source 0)
  (pool.set target (mix (pool.getD target 0) word), next)

/-- The pool of four words for a seed, every word mixed into every other. -/
def pool (seed : UInt32) : List UInt32 :=
  let start := hashWords poolFactor 0x43b0d7e5 [seed, 0, 0, 0]
  let pairs := (List.range 4).flatMap fun i =>
    ((List.range 4).filter (· != i)).map fun j => (i, j)
  (pairs.foldl (fun (words, constant) (i, j) => mixInto words constant i j) start).1

/-- The eight words that the pool is stretched to. -/
def stretched (seed : UInt32) : List UInt32 :=
  (hashWords 0x58f38ded 0x8b51f9dd (pool seed ++ pool seed)).1

/-- One step of the recurrence. -/
def step (g : Generator) : Generator :=
  { g with state := (g.state * multiplier + g.increment) % modulus }

/-- The generator for a seed. -/
def ofSeed (seed : UInt32) : Generator :=
  let words := (stretched seed).map UInt32.toNat
  let quad (i : Nat) : Nat := words.getD (2 * i) 0 + words.getD (2 * i + 1) 0 * Nat.pow 2 32
  let increment := (2 * (quad 2 * Nat.pow 2 64 + quad 3) + 1) % modulus
  let first := step ⟨0, increment⟩
  step { first with state := (first.state + quad 0 * Nat.pow 2 64 + quad 1) % modulus }

/-- The output word of a state: its halves combined and rotated. -/
def output (g : Generator) : UInt64 :=
  let high := g.state / Nat.pow 2 64
  let word := UInt64.ofNat (high ^^^ (g.state % Nat.pow 2 64))
  let turn := UInt64.ofNat (g.state / Nat.pow 2 122)
  (word >>> turn) ||| (word <<< ((64 - turn) % 64))

/-- The next number from `low` on, below `high`, with 53 random binary
digits. -/
def uniform (low high : Float) (g : Generator) : Except Fault (Float × Generator) :=
  let width := high - low
  if width.isFinite then
    let next := g.step
    let unit := (next.output >>> 11).toFloat * Float.ofBits 0x3ca0000000000000
    .ok (low + width * unit, next)
  else .error .overflow

end Generator

end ExactRoots
