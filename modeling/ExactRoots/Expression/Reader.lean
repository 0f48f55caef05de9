import ExactRoots.Expression.Tree
import ExactRoots.Value.Conversion

/-!
# Reading coefficients

A coefficient text is brought to the notation of expressions and given to a parser.  What
the parser makes of it is a number whose parts become a value, an expression with unknowns,
or nothing.  Any parser may be used; the one given here knows the arithmetic of integers,
decimals, roots and the usual constants.
-/

namespace ExactRoots

namespace Expression

/-- The number of binary digits that so many decimal figures call for, and those of
a double at least. -/
def bitsOfFigures (figures : Nat) : Nat :=
  ((max figures 15 + 1) * 33219280948873626 + 5000000000000000) / 10000000000000000

/-- The greatest size of a decimal exponent, and of a count of figures, that is
taken at face value. -/
def mostExponent : Nat := 20000

/-- A decimal literal: a number of as many binary digits as its figures call for. -/
def literal (digits : Nat) (exponent : Int) (figures : Nat) : Scalar :=
  let exponent := max (-(mostExponent : Int)) (min mostExponent exponent)
  let q : Rat :=
    if 0 ≤ exponent then (digits * Nat.pow 10 exponent.toNat : Nat)
    else mkRat digits (Nat.pow 10 (-exponent).toNat)
  .literal (bitsOfFigures (min mostExponent figures)) q

/-- What a tree amounts to, unless a decimal is divided by a decimal zero. -/
def Tree.eval? : Tree → Option Formal
  | .whole n => some (.rational n)
  | .decimal digits exponent figures => some (.scalar (literal digits exponent figures))
  | .unit => some .unit
  | .circle => some .circle
  | .euler => some (.atom .euler)
  | .unknown name => some (.atom (.letter name))
  | .neg a => do return (← a.eval?).neg
  | .add a b => do return (← a.eval?).add (← b.eval?)
  | .sub a b => do return (← a.eval?).sub (← b.eval?)
  | .mul a b => do return (← a.eval?).mul (← b.eval?)
  | .div a b => do (← a.eval?).div? (← b.eval?)
  | .pow a b => do return (← a.eval?).pow (← b.eval?)
  | .sqrt a => do return (← a.eval?).sqrt

/-! ## Parsers -/

/-- The real or the imaginary part of a number: the rational that it is, if it is one, whether
it is known to be zero, and the double nearest to it. -/
structure Part where
  rational? : Option Rat
  isZero : Bool
  toFloat : Except Fault Float

/-- What a text is parsed to. -/
inductive Parsed where
  /-- The text is no expression. -/
  | unreadable
  /-- The text is an expression, but no number. -/
  | symbolic
  /-- The text is a number, with its parts if it can be split into them. -/
  | number (parts : Except Fault (Part × Part))

/-- A parser of expressions. -/
abbrev Parser := String → Parsed

/-- A rational as a part. -/
def Part.ofRat (q : Rat) : Part := ⟨some q, q == 0, (Value.ofRat q).toFloat⟩

/-- A double that stands for a part which is no rational. -/
def Part.ofFloat (x : Float) : Part := ⟨none, false, .ok x⟩

/-- The parts of a number. -/
def numberParts : Formal.Number → Part × Part
  | .exact u => (.ofRat u.re, .ofRat u.im)
  | .inexact (.real x) => (.ofFloat x, .ofRat 0)
  | .inexact (.complex re im) => (.ofFloat re, .ofFloat im)

/-- The parser of arithmetical expressions.  It refuses texts that apply functions other than the
square root. -/
def parse : Parser := fun text =>
  match ((tokens? text.toList).bind Tree.ofTokens?).bind (·.eval?) with
  | none => .unreadable
  | some e => if e.hasLetters then .symbolic else .number (.ok (numberParts e.number))

/-- The simplest value of a real number. -/
def Part.value (part : Part) : Except Fault Value :=
  match part.rational? with
  | some q => .ok (.ofRat q)
  | none => part.toFloat.map .float

/-- The simplest value of a number with the given parts. -/
def valueOfParts (re im : Part) : Except Fault Value := do
  if im.isZero then re.value
  else
    match re.rational?, im.rational? with
    | some p, some q => return .ofGaussian ⟨p, q⟩
    | _, _ => return .complex (← re.toFloat) (← im.toFloat)

/-! ## Notation -/

/-- Write powers with two stars. -/
def markPowers (cs : List Char) : List Char :=
  cs.flatMap fun c => if c == '^' then ['*', '*'] else [c]

/-- Write the imaginary unit as `I` wherever it stands alone. -/
def markUnits : (afterLetter : Bool) → List Char → List Char
  | _, [] => []
  | afterLetter, c :: rest =>
    let alone := !afterLetter && !(rest.head?.any isLetter)
    (if (c == 'i' || c == 'j') && alone then 'I' else c) :: markUnits (isLetter c) rest

/-- A coefficient text in the notation of expressions. -/
def marked (cs : List Char) : List Char := markUnits false (markPowers cs)

end Expression

open Expression (Parser)

/-- The value that a coefficient text denotes. -/
def readCoefficient (parse : Parser) (text : String) : Except Fault Value :=
  let cs := Numeral.trim text.toList
  if cs.isEmpty then .error .blankCoefficient
  else
    match parse (String.ofList (Expression.marked cs)) with
    | .unreadable => .error (.unreadableCoefficient text)
    | .symbolic => .error (.symbolicCoefficient text)
    | .number parts => do
      let (re, im) ← parts
      Expression.valueOfParts re im

/-- The values of at least one coefficient text. -/
def readCoefficients (parse : Parser) (texts : List String) : Except Fault (List Value) :=
  if texts.isEmpty then .error .noCoefficients else texts.mapM (readCoefficient parse)

end ExactRoots
