import BlockSynth.Proofs.Zig.Operand
import BlockSynth.Number.Decimal

/-! # The grammar of expressions

Signs bind tightest, then products, sums, one comparison at most, `and`, and `or`. A conditional is
a primary whose last branch extends as far as it can. The reader descends through these levels and
answers with the tree of the phrase and the tokens behind it.
-/
namespace BlockSynth.Zig

inductive Sign
  | minus
  | not
  deriving DecidableEq, Repr

inductive Operator
  | multiply
  | divide
  | add
  | subtract
  | equal
  | unequal
  | less
  | lessOrEqual
  | greater
  | greaterOrEqual
  | and
  | or
  deriving DecidableEq, Repr

inductive Expr
  | number (value : Binary64)
  | truth (value : Bool)
  | null
  | name (word : String)
  | signed (sign : Sign) (operand : Expr)
  | binary (operator : Operator) (left right : Expr)
  | choice (condition consequence otherwise : Expr)
  deriving DecidableEq, Repr

def Sign.token : Sign → Token
  | minus => .minus
  | not => .symbol ['!']

def Sign.ofToken? (token : Token) : Option Sign :=
  [minus, not].find? (·.token == token)

namespace Operator

def all : List Operator :=
  [multiply, divide, add, subtract, equal, unequal, less, lessOrEqual, greater,
    greaterOrEqual, and, or]

def token : Operator → Token
  | multiply => .symbol ['*']
  | divide => .symbol ['/']
  | add => .symbol ['+']
  | subtract => .minus
  | equal => .symbol ['=', '=']
  | unequal => .symbol ['!', '=']
  | less => .symbol ['<']
  | lessOrEqual => .symbol ['<', '=']
  | greater => .symbol ['>']
  | greaterOrEqual => .symbol ['>', '=']
  | and => .word ['a', 'n', 'd']
  | or => .word ['o', 'r']

def ofToken? (token : Token) : Option Operator :=
  all.find? (·.token == token)

def text (operator : Operator) : String :=
  match operator.token with
  | .word text => String.ofList text
  | .symbol text => String.ofList text
  | _ => ""

/-- The level of comparisons, of which there is at most one. -/
def comparing : Nat := 3

/-- The level of whole expressions. -/
def loosest : Nat := 5

/-- Operators bind tighter on a lower level; signs are on level zero. -/
def level : Operator → Nat
  | multiply => 1
  | divide => 1
  | add => 2
  | subtract => 2
  | and => 4
  | or => 5
  | _ => comparing

end Operator

/-! ### Reading -/

/-- A numeral is the number nearest to what it says. -/
def numeral (whole fraction : List Char) : Expr :=
  .number (Decimal.ofParts false whole fraction 0).toBinary64

def readWord (text : List Char) : Option Expr :=
  if Chars.isDigits text then some (numeral text [])
  else if text = "true".toList then some (.truth true)
  else if text = "false".toList then some (.truth false)
  else if text = "null".toList then some .null
  else if Chars.isIdentifier text ∧
    String.ofList text ∉ keywords then some (.name (String.ofList text))
  else none

def readAtom : List Token → Option (Expr × List Token)
  | .word whole :: .symbol ['.'] :: .word fraction :: rest =>
    if Chars.isDigits whole ∧
      Chars.isDigits fraction then some (numeral whole fraction, rest) else none
  | .word text :: rest => (readWord text).map (·, rest)
  | _ => none

/-- What has been read, if that has left fewer than the given tokens. -/
def shorter (tokens : List Token) (result : Option (Expr × List Token)) :
    Option (Expr × { rest : List Token // rest.length < tokens.length }) := do
  let (tree, rest) ← result
  if h : rest.length < tokens.length then some (tree, ⟨rest, h⟩) else none

mutual

/-- A phrase of the given level. -/
def readLevel (level : Nat) (tokens : List Token) : Option (Expr × List Token) :=
  match level with
  | 0 => readSigned tokens
  | level + 1 => do
    let (left, ⟨rest, _⟩) ← shorter tokens (readLevel level tokens)
    readMore (level + 1) left rest
termination_by (tokens.length, level + 2)

/-- The operators of the given level that follow a phrase, each with its right operand. -/
def readMore (level : Nat) (left : Expr) : List Token → Option (Expr × List Token)
  | [] => some (left, [])
  | token :: rest =>
    match Operator.ofToken? token with
    | none => some (left, token :: rest)
    | some operator =>
      if operator.level = level then do
        let (right, ⟨more, _⟩) ← shorter rest (readLevel (level - 1) rest)
        if level = Operator.comparing then some (.binary operator left right, more)
        else readMore level (.binary operator left right) more
      else some (left, token :: rest)
termination_by tokens => (tokens.length, 0)

/-- Signs and a primary. -/
def readSigned : List Token → Option (Expr × List Token)
  | [] => none
  | token :: rest =>
    match Sign.ofToken? token with
    | some sign => do
      let (operand, more) ← readSigned rest
      return (.signed sign operand, more)
    | none =>
      if token = .opening '(' then readGroup (token :: rest)
      else if token = .ifWord then do
        let (condition, ⟨more, _⟩) ← shorter rest (readGroup rest)
        let (consequence, more) ← shorter more (readLevel Operator.loosest more)
        match more with
        | ⟨.word ['e', 'l', 's', 'e'] :: more, _⟩ => do
          let (otherwise, more) ← readLevel Operator.loosest more
          return (.choice condition consequence otherwise, more)
        | _ => none
      else readAtom (token :: rest)
termination_by tokens => (tokens.length, 1)
decreasing_by
  all_goals simp only [Prod.lex_def, List.length_cons, true_and] at *
  all_goals omega

/-- An expression in parentheses. -/
def readGroup : List Token → Option (Expr × List Token)
  | .opening '(' :: rest => do
    let (tree, more) ← readLevel Operator.loosest rest
    match more with
    | .closing ')' :: more => some (tree, more)
    | _ => none
  | _ => none
termination_by tokens => (tokens.length, 0)

end

/-- The tree of a text that is one expression. -/
def parse (text : String) : Option Expr := do
  let (tree, rest) ← readLevel Operator.loosest (← tokens text.toList)
  if rest = [] then some tree else none

end BlockSynth.Zig
