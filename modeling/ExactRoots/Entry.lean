import ExactRoots.Value.Recovery
import ExactRoots.Value.Rounding
import ExactRoots.Value.SquareRoot

/-!
# Entries

What a caller may hand over where a number is wanted: a value, a truth value,
a number of fixed width, an unknown, or a list of entries, nested to any depth.
An entry is brought to simplest form before anything is computed with it; truth
values become integers then, and unknowns are refused.
-/

namespace ExactRoots

/-- A number of fixed width, as arrays hold it. -/
inductive Packed where
  | int64 (n : Int64)
  | float64 (x : Float)
  | complex128 (re im : Float)

/-- The plain value that a number of fixed width holds. -/
def Packed.item : Packed → Value
  | .int64 n => .int n.toInt
  | .float64 x => .float x
  | .complex128 re im => .complex re im

/-- A number or list of numbers before normalisation. -/
inductive Entry where
  | value (v : Value)
  | flag (b : Bool)
  | symbol (name : String)
  | list (items : List Entry)
  | array (items : List Float)

namespace Entry

/-- A number of fixed width stands as the plain value that it holds. -/
def packed (p : Packed) : Entry := .value p.item

/-- A truth value as an integer. -/
def flagValue (b : Bool) : Value := .int (if b then 1 else 0)

mutual

/-- The simplest form of an entry, entry by entry for a list. -/
def simplify (dropFloat : Bool) : Entry → Except Fault Entry
  | .value v => .ok (.value (v.simplify dropFloat))
  | .flag b => .ok (.value (flagValue b))
  | .symbol name => .error (.notNumeric name)
  | .list items => do return .list (← simplifyAll dropFloat items)
  | .array items => .ok (.list (items.map fun x => .value (Value.ofFloat dropFloat x)))

/-- The simplest forms of all entries of a list. -/
def simplifyAll (dropFloat : Bool) : List Entry → Except Fault (List Entry)
  | [] => .ok []
  | item :: items => do
    let first ← simplify dropFloat item
    let rest ← simplifyAll dropFloat items
    return first :: rest

end

mutual

/-- Apply a function for single values to every number of an entry. -/
def mapValues (f : Value → Except Fault Value) : Entry → Except Fault Entry
  | .value v => do return .value (← f v)
  | .flag b => do return .value (← f (flagValue b))
  | .symbol name => .error (.notNumeric name)
  | .list items => do return .list (← mapAll f items)
  | .array items => do return .list ((← items.mapM fun x => f (.float x)).map .value)

/-- Apply a function for single values to all entries of a list. -/
def mapAll (f : Value → Except Fault Value) : List Entry → Except Fault (List Entry)
  | [] => .ok []
  | item :: items => do
    let first ← mapValues f item
    let rest ← mapAll f items
    return first :: rest

end

/-- The single value that an entry is; a list is not one. -/
def toValue : Entry → Except Fault Value
  | .value v => .ok v
  | .flag b => .ok (flagValue b)
  | .symbol name => .error (.notNumeric name)
  | .list _ | .array _ => .error .unsupported

/-- The entries of a list. -/
def items : Entry → Except Fault (List Entry)
  | .list items => .ok items
  | .array items => .ok (items.map fun x => .value (.float x))
  | .value _ | .flag _ | .symbol _ => .error .unsupported

mutual

/-- The written form of an entry in a list. -/
def shown : Entry → Except Fault String
  | .flag b => .ok (if b then "True" else "False")
  | .value v => v.shown
  | .symbol name => .ok name
  | .list items => do return Value.bracketed (← shownAll items)
  | .array items => .ok (Value.bracketed (items.map Binary64.text))

/-- The written forms of all entries of a list. -/
def shownAll : List Entry → Except Fault (List String)
  | [] => .ok []
  | item :: items => do return (← shown item) :: (← shownAll items)

end

/-- The written form of an entry alone. -/
def display : Entry → Except Fault String
  | .value v => v.display
  | e => e.shown

/-- Whether an entry is zero; lists and unknowns are not. -/
def isZero : Entry → Except Fault Bool
  | .value v => v.isZero
  | .flag b => .ok !b
  | .symbol _ | .list _ | .array _ => .ok false

/-- The parts and kind of an entry. -/
structure Parts where
  re : Entry
  im : Value
  exact : Bool
  complex : Bool

/-- The parts and kind of an entry; a list is its own real part. -/
def parts (e : Entry) : Except Fault Parts := do
  match ← e.simplify false with
  | .value v => return ⟨.value v.realPart, v.imagPart, v.isExact, v.isComplex⟩
  | e => return ⟨e, .int 0, false, false⟩

/-- An entry as an inexact number. -/
def toInexact (e : Entry) : Except Fault Inexact := do
  (← e.toValue).toInexact

/-- The principal square root of an entry; a list has none. -/
def sqrt (e : Entry) : Except Fault Value := do
  match ← e.simplify false with
  | .value v => v.sqrt
  | e => throw (.noSquareRoot "list" (← e.shown))

/-- An entry as a fraction where that loses little; a list stays as it is. -/
def recover (bound places : Int) (e : Entry) : Except Fault Entry := do
  match ← e.simplify false with
  | .value v => return .value (← v.recover bound places)
  | e => return e

/-- Every number of an entry rounded to `places` decimals. -/
def round (places : Int) (e : Entry) : Except Fault Entry :=
  e.mapValues (Value.round places)

/-- Every number of an entry rounded to `figures` significant figures. -/
def significant (figures : Int) (e : Entry) : Except Fault Entry :=
  if figures < 1 then .error .figuresNotPositive
  else e.mapValues (Value.significant figures)

/-- The simplest entry equal to `re + im * i`.  A list is one already, when it
stands beside an imaginary part of zero. -/
def makeComplex (re im : Entry) : Except Fault Entry := do
  match ← re.simplify true, ← im.simplify true with
  | .value x, .value y => return .value (← x.makeComplex y)
  | x, y => if ← y.isZero then return x else throw .unsupported

/-- The quotient of two entries in simplest form. -/
def quo (numerator denominator : Entry) : Except Fault Value := do
  if ← denominator.isZero then throw (.zeroDivisor (← numerator.display))
  (← numerator.toValue).quo (← denominator.toValue)

/-- Make every value inexact when a decimal stands beside a value that it does
not mix with.  A list of decimals, integers and truth values stays as it is. -/
def coerceDecimals (items : List Entry) : Except Fault (List Entry) := do
  let isDecimal : Entry → Bool
    | .value v => v.isDecimal
    | _ => false
  let mixes : Entry → Bool
    | .value (.decimal _) | .value (.int _) | .flag _ => true
    | _ => false
  if !items.any isDecimal || items.all mixes then return items
  else items.mapM fun e => do return .value (.inexact (← e.toInexact))

end Entry

end ExactRoots
