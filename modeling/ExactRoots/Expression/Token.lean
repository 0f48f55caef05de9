import ExactRoots.Digits
import ExactRoots.Numeral

/-!
# Tokens of an expression

A text is split into numbers, names and operators.  The letter `I` stands for the
imaginary unit.  A name that has no meaning of its own is a run of one-letter factors.
Functions other than the square root are not among the tokens.
-/

namespace ExactRoots.Expression

/-- A token.  A decimal keeps the count of its significant digits. -/
inductive Token where
  | whole (n : Nat)
  | decimal (digits : Nat) (exponent : Int) (figures : Nat)
  | unit
  | circle
  | euler
  | sqrt
  | unknown (name : String)
  | plus
  | minus
  | times
  | slash
  | power
  | opening
  | closing
  | comma
  deriving DecidableEq, Repr

/-- Whether a character is a letter of the basic alphabet. -/
def isLetter (c : Char) : Bool := c.isAlpha

/-- Whether a character is a decimal digit of another script: Arabic, Persian or
Devanagari.  Such digits belong to no token. -/
def isForeignDigit (c : Char) : Bool :=
  (0x660 ≤ c.toNat && c.toNat ≤ 0x669) || (0x6f0 ≤ c.toNat && c.toNat ≤ 0x6f9) ||
    (0x966 ≤ c.toNat && c.toNat ≤ 0x96f)

/-- Whether a character is a letter of another alphabet. -/
def isForeignLetter (c : Char) : Bool :=
  c.toNat == 0xaa || c.toNat == 0xb5 || c.toNat == 0xba ||
    (0xc0 ≤ c.toNat && c.toNat ≤ 0x2c1 && c.toNat != 0xd7 && c.toNat != 0xf7) ||
    (0x370 ≤ c.toNat && c.toNat ≤ 0x1fff && !isForeignDigit c) ||
    (0x3041 ≤ c.toNat && c.toNat ≤ 0xd7a3)

/-- Whether a character may stand in a name: a letter, a digit after the first
place, or an underscore. -/
def isNameChar (c : Char) : Bool :=
  c.isAlphanum || c == '_' || isForeignLetter c

/-- The exponent of a number and what follows it, if one is written. -/
def takeExponent (cs : List Char) : Option (Int × List Char) :=
  match cs with
  | c :: rest =>
    if c == 'e' || c == 'E' then
      let (negative, rest) := Numeral.takeSign rest
      let digits := rest.takeWhile Char.isDigit
      if digits.isEmpty then none
      else
        let size : Int := Numeral.digitsValue digits
        some (if negative then -size else size, rest.dropWhile Char.isDigit)
    else none
  | [] => none

/-- The number of decimal digits of a numeral without leading zeros. -/
def figureCount (n : Nat) : Nat := (toString n).length

/-- The token of a number with the given digits before and after the point. -/
def decimalToken (whole fraction : List Char) (pointed : Bool) (exponent : Int) : Token :=
  let digits := Numeral.digitsValue (whole ++ fraction)
  let scale := exponent - fraction.length
  let figures :=
    if pointed || scale < 0 then figureCount digits else figureCount digits + scale.toNat
  .decimal digits scale figures

/-- The base that the letter behind a zero calls for. -/
def base? : Char → Option Nat
  | 'x' | 'X' => some 16
  | 'o' | 'O' => some 8
  | 'b' | 'B' => some 2
  | _ => none

/-- The value of a digit to a base, letters being the digits from ten on. -/
def digitTo? (base : Nat) (c : Char) : Option Nat :=
  let value := if c.isDigit then c.toNat - '0'.toNat else c.toLower.toNat - 'a'.toNat + 10
  if c.isAlphanum && value < base then some value else none

/-- The number at the head of a text that is written to a base other than ten, and what
follows it. -/
def takeBased? : List Char → Option (Token × List Char)
  | '0' :: letter :: cs =>
    match base? letter with
    | none => none
    | some base =>
      match cs.span fun c => (digitTo? base c).isSome with
      | ([], _) => none
      | (digits, rest) =>
        some (.whole ((digits.filterMap (digitTo? base)).foldl (base * · + ·) 0), rest)
  | _ => none

/-- The decimal number at the head of a text and what follows it.  Zeros before a
nonzero digit are a number of their own. -/
def takeDecimal? (cs : List Char) : Option (Token × List Char) :=
  let whole := cs.takeWhile Char.isDigit
  match cs.dropWhile Char.isDigit with
  | '.' :: rest =>
    let fraction := rest.takeWhile Char.isDigit
    let rest := rest.dropWhile Char.isDigit
    if whole.isEmpty && fraction.isEmpty then none
    else
      match takeExponent rest with
      | some (exponent, rest) => some (decimalToken whole fraction true exponent, rest)
      | none => some (decimalToken whole fraction true 0, rest)
  | rest =>
    match takeExponent rest with
    | some (exponent, rest) =>
      if whole.isEmpty then none else some (decimalToken whole [] false exponent, rest)
    | none =>
      match whole with
      | [] => none
      | '0' :: digits =>
        some (.whole 0, digits.dropWhile (· == '0') ++ rest)
      | _ =>
        if mostDigits < whole.length then none
        else some (.whole (Numeral.digitsValue whole), rest)

/-- The number at the head of a text and what follows it. -/
def takeNumber? (cs : List Char) : Option (Token × List Char) :=
  (takeBased? cs).or (takeDecimal? cs)

/-- The factors that a name without a meaning of its own stands for, given the
digits of a number that is being read. -/
def nameFactors (digits : List Char) : List Char → List Token
  | [] => if digits.isEmpty then [] else [.whole (Numeral.digitsValue digits.reverse)]
  | c :: rest =>
    if c.isDigit then nameFactors (c :: digits) rest
    else
      let token : Token :=
        if c == 'I' then .unit else if c == 'E' then .euler else .unknown (String.singleton c)
      (if digits.isEmpty then [] else [.whole (Numeral.digitsValue digits.reverse)])
        ++ token :: nameFactors [] rest

/-- Names of functions. -/
def functionNames : List String :=
  ["exp", "log", "ln", "sin", "cos", "tan", "cot", "sec", "csc", "sinc", "asin", "acos", "atan",
    "acot", "asec", "acsc", "atan2", "sinh", "cosh", "tanh", "coth", "sech", "csch", "asinh",
    "acosh", "atanh", "acoth", "asech", "acsch", "abs", "Abs", "sign", "re", "im", "arg",
    "conjugate", "floor", "ceiling", "frac", "factorial", "binomial", "gamma", "beta", "zeta",
    "erf", "cbrt", "root", "min", "max", "Min", "Max", "Integer", "Rational", "Float"]

/-- Whether a name with a text behind it is that of a function: by the name itself, or since it
is no product of letters and has an argument in parentheses. -/
def isFunction (name rest : List Char) : Bool :=
  functionNames.contains (String.ofList name) ||
    ((rest.dropWhile fun c => c == ' ' || c == '\t').head? == some '(' &&
      (name.contains '_' || name.length == 1) && name != ['I'] && name != ['E'])

/-- The tokens of a name that is not that of a function. -/
def nameTokens (name : List Char) : List Token :=
  if name = "pi".toList then [.circle]
  else if name = "sqrt".toList then [.sqrt]
  else if name.contains '_' then [.unknown (String.ofList name)]
  else nameFactors [] name

/-- The operator that a character is. -/
def operator? : Char → Option Token
  | '+' => some .plus
  | '-' => some .minus
  | '/' => some .slash
  | '(' => some .opening
  | ')' => some .closing
  | ',' => some .comma
  | _ => none

/-- The tokens of a text of at most `fuel` characters. -/
def tokensWithin : (fuel : Nat) → List Char → Option (List Token)
  | _, [] => some []
  | 0, _ => none
  | fuel + 1, c :: cs =>
    if c == ' ' || c == '\t' then tokensWithin fuel cs
    else if c == '*' then
      match cs with
      | '*' :: rest => (tokensWithin fuel rest).map (.power :: ·)
      | rest => (tokensWithin fuel rest).map (.times :: ·)
    else
      match operator? c with
      | some token => (tokensWithin fuel cs).map (token :: ·)
      | none =>
        if c.isDigit || c == '.' then
          match takeNumber? (c :: cs) with
          | none => none
          | some (token, 'j' :: rest) | some (token, 'J' :: rest) =>
            (tokensWithin fuel rest).map (token :: .unit :: ·)
          | some (token, rest) => (tokensWithin fuel rest).map (token :: ·)
        else if isNameChar c then
          let name := (c :: cs).takeWhile isNameChar
          let rest := (c :: cs).dropWhile isNameChar
          if isFunction name rest then none
          else (tokensWithin fuel rest).map (nameTokens name ++ ·)
        else none

/-- The tokens of a text, if it consists of tokens. -/
def tokens? (cs : List Char) : Option (List Token) := tokensWithin cs.length cs

end ExactRoots.Expression
