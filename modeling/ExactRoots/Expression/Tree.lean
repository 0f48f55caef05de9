import ExactRoots.Expression.Token

/-!
# Expression trees

Sums of products of powers, with signs and parentheses.  Two factors side by
side are multiplied, with the precedence of a multiplication sign.  Powers
associate to the right and bind more tightly than a sign before them.
-/

namespace ExactRoots.Expression

/-- An arithmetical expression. -/
inductive Tree where
  | whole (n : Nat)
  | decimal (digits : Nat) (exponent : Int) (figures : Nat)
  | unit
  | circle
  | euler
  | unknown (name : String)
  | neg (a : Tree)
  | add (a b : Tree)
  | sub (a b : Tree)
  | mul (a b : Tree)
  | div (a b : Tree)
  | pow (a b : Tree)
  | sqrt (a : Tree)
  deriving DecidableEq, Repr

/-- A tree and the tokens after it. -/
abbrev Parse := Option (Tree × List Token)

/-- Whether a token can begin a factor without a sign. -/
def Token.beginsFactor : Token → Bool
  | .whole _ | .decimal .. | .unit | .circle | .euler | .sqrt | .unknown _ | .opening => true
  | _ => false

mutual

/-- A sum: a product and what is added to it. -/
def sum : Nat → List Token → Parse
  | 0, _ => none
  | fuel + 1, ts => do
    let (first, rest) ← product fuel ts
    sumTail fuel first rest

/-- What is added to, or subtracted from, a sum so far. -/
def sumTail : Nat → Tree → List Token → Parse
  | fuel + 1, left, .plus :: ts => do
    let (term, rest) ← product fuel ts
    sumTail fuel (.add left term) rest
  | fuel + 1, left, .minus :: ts => do
    let (term, rest) ← product fuel ts
    sumTail fuel (.sub left term) rest
  | _, left, ts => some (left, ts)

/-- A product: a factor and what it is multiplied or divided by. -/
def product : Nat → List Token → Parse
  | 0, _ => none
  | fuel + 1, ts => do
    let (first, rest) ← signed fuel ts
    productTail fuel first rest

/-- The further factors of a product so far. -/
def productTail : Nat → Tree → List Token → Parse
  | fuel + 1, left, .times :: ts => do
    let (factor, rest) ← signed fuel ts
    productTail fuel (.mul left factor) rest
  | fuel + 1, left, .slash :: ts => do
    let (factor, rest) ← signed fuel ts
    productTail fuel (.div left factor) rest
  | fuel + 1, left, t :: ts =>
    if t.beginsFactor then do
      let (factor, rest) ← powered fuel (t :: ts)
      productTail fuel (.mul left factor) rest
    else some (left, t :: ts)
  | _, left, ts => some (left, ts)

/-- A factor with any signs before it. -/
def signed : Nat → List Token → Parse
  | fuel + 1, .plus :: ts => signed fuel ts
  | fuel + 1, .minus :: ts => do
    let (factor, rest) ← signed fuel ts
    return (.neg factor, rest)
  | fuel + 1, ts => powered fuel ts
  | 0, _ => none

/-- An atom with its exponent, if it has one. -/
def powered : Nat → List Token → Parse
  | 0, _ => none
  | fuel + 1, ts => do
    let (base, rest) ← atom fuel ts
    match rest with
    | .power :: rest =>
      let (exponent, rest) ← signed fuel rest
      return (.pow base exponent, rest)
    | rest => return (base, rest)

/-- A number, a constant, an unknown, a root, or a sum in parentheses. -/
def atom : Nat → List Token → Parse
  | fuel + 1, .opening :: .closing :: ts => if fuel = 0 then none else some (.unknown "()", ts)
  | fuel + 1, .opening :: ts => enclosed fuel ts
  | fuel + 1, .sqrt :: .opening :: ts => do
    let (radicand, rest) ← enclosed fuel ts
    return (.sqrt radicand, rest)
  | _, .sqrt :: ts => some (.unknown "sqrt", ts)
  | _, .whole n :: ts => some (.whole n, ts)
  | _, .decimal digits exponent figures :: ts => some (.decimal digits exponent figures, ts)
  | _, .unit :: ts => some (.unit, ts)
  | _, .circle :: ts => some (.circle, ts)
  | _, .euler :: ts => some (.euler, ts)
  | _, .unknown name :: ts => some (.unknown name, ts)
  | _, _ => none

/-- One sum, or several with commas between them or behind them, which together
are no number. -/
def listed : Nat → List Token → Parse
  | 0, _ => none
  | fuel + 1, ts => do
    match ← sum fuel ts with
    | (_, .comma :: .closing :: rest) => return (.unknown ",", .closing :: rest)
    | (_, [.comma]) => return (.unknown ",", [])
    | (_, .comma :: rest) =>
      let (_, rest) ← listed fuel rest
      return (.unknown ",", rest)
    | (inner, rest) => return (inner, rest)

/-- What stands before a closing parenthesis. -/
def enclosed : Nat → List Token → Parse
  | 0, _ => none
  | fuel + 1, ts => do
    match ← listed fuel ts with
    | (inner, .closing :: rest) => return (inner, rest)
    | _ => none

end

/-- The tree of a list of tokens that is one expression as a whole. -/
def Tree.ofTokens? (ts : List Token) : Option Tree :=
  match listed (10 * ts.length + 10) ts with
  | some (tree, []) => some tree
  | _ => none

end ExactRoots.Expression
