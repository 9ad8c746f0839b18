import BlockSynth.Rank
import BlockSynth.Text.Shape

/-! # The outline of Zig text

A text is read character by character into words, symbols, brackets and literals. A literal has to
close on the line it opens on; a comment runs from `//` to the end of its line. The outline of the
tokens keeps the brackets that are still open and the operators that stand outside all brackets.
-/
namespace BlockSynth.Zig

inductive Token
  | word (text : List Char)
  | symbol (text : List Char)
  | opening (bracket : Char)
  | closing (bracket : Char)
  /-- A string or character literal. -/
  | literal
  deriving DecidableEq, Repr

/-- What a literal is delimited by. -/
inductive Quote
  | single
  | double
  deriving DecidableEq, Repr

def Quote.mark : Quote → Char
  | single => '\''
  | double => '"'

/-- Where the reader of a text stands. -/
inductive Mode
  | code
  | word (text : List Char)
  /-- Behind a character that the next one may complete to an operator or a comment mark. -/
  | operator (first : Char)
  | literal (quote : Quote)
  /-- Behind a backslash in a literal. -/
  | escape (quote : Quote)
  | comment
  deriving DecidableEq, Repr

def closer? : Char → Option Char
  | '(' => some ')'
  | '[' => some ']'
  | '\x7b' => some '\x7d'
  | _ => none

def isCloser (c : Char) : Bool :=
  c == ')' || c == ']' || c == '\x7d'

/-- The characters that a second one may complete. -/
def isPartial (c : Char) : Bool :=
  c == '=' || c == '!' || c == '<' || c == '>' || c == '+' || c == '/'

/-- The operators of two characters. -/
def isPair (first second : Char) : Bool :=
  (second == '=' && (first == '=' || first == '!' || first == '<' || first == '>')) ||
    (first == '+' && second == '+')

namespace Mode

/-- The first character of a token, or a blank between two. -/
def start (c : Char) : List Token × Mode :=
  if Chars.isBlank c then ([], code)
  else if Chars.isWordChar c then ([], word [c])
  else if c = '"' then ([], literal .double)
  else if c = '\'' then ([], literal .single)
  else if (closer? c).isSome then ([.opening c], code)
  else if isCloser c then ([.closing c], code)
  else if isPartial c then ([], operator c)
  else ([.symbol [c]], code)

/-- The tokens that a character completes, and the mode behind it. -/
def step : Mode → Char → Option (List Token × Mode)
  | code, c => some (start c)
  | word text, c =>
    if Chars.isWordChar c then some ([], word (text ++ [c]))
    else some (.word text :: (start c).1, (start c).2)
  | operator first, c =>
    if first = '/' ∧ c = '/' then some ([], comment)
    else if isPair first c then some ([.symbol [first, c]], code)
    else some (.symbol [first] :: (start c).1, (start c).2)
  | literal quote, c =>
    if c = '\n' then none
    else if c = '\\' then some ([], escape quote)
    else if c = quote.mark then some ([.literal], code)
    else some ([], literal quote)
  | escape quote, c => if c = '\n' then none else some ([], literal quote)
  | comment, c => some ([], if c = '\n' then code else comment)

def run : Mode → List Char → Option (List Token × Mode)
  | mode, [] => some ([], mode)
  | mode, c :: rest => do
    let (tokens, mode) ← mode.step c
    let (more, mode) ← mode.run rest
    return (tokens ++ more, mode)

/-- The token that the end of the text completes. No text ends inside a literal. -/
def finish : Mode → Option (List Token)
  | code => some []
  | word text => some [.word text]
  | operator first => some [.symbol [first]]
  | literal _ => none
  | escape _ => none
  | comment => some []

end Mode

/-- The tokens of a text, if all its literals close on their lines. -/
def tokens (text : List Char) : Option (List Token) := do
  let (tokens, mode) ← Mode.code.run text
  return tokens ++ (← mode.finish)

/-! ### Exposed operators -/

def Token.minus : Token := .symbol ['-']

def Token.ifWord : Token := .word ['i', 'f']

def Token.elseWord : Token := .word ['e', 'l', 's', 'e']

/-- The operators, a minus sign as a sign. -/
def operators : List (Token × Rank) :=
  [(.minus, .unaryPrefix), (.symbol ['!'], .unaryPrefix), (.symbol ['&'], .unaryPrefix),
    (.word ['t', 'r', 'y'], .unaryPrefix), (.symbol ['*'], .multiplicative),
    (.symbol ['/'], .multiplicative), (.symbol ['+'], .additive), (.symbol ['+', '+'], .additive),
    (.symbol ['<'], .relational), (.symbol ['<', '='], .relational), (.symbol ['>'], .relational),
    (.symbol ['>', '='], .relational), (.symbol ['=', '='], .equality),
    (.symbol ['!', '='], .equality), (.word ['a', 'n', 'd'], .logicalAnd),
    (.word ['o', 'r'], .logicalOr), (.ifWord, .conditional),
    (.word ['e', 'l', 's', 'e'], .conditional)]

/-- Whether an operand can end with the token. -/
def Token.endsOperand : Token → Bool
  | word text => (operators.lookup (.word text)).isNone
  | symbol _ => false
  | opening _ => false
  | closing _ => true
  | literal => true

/-- The rank of a token as an operator; a minus sign behind an operand subtracts. -/
def Token.rank? (last : Option Token) (token : Token) : Option Rank :=
  if token = .minus ∧ last.any endsOperand then some .additive else operators.lookup token

structure Outline where
  /-- The brackets that are open, innermost first. -/
  opened : List Char := []
  /-- The last token outside all brackets; the condition of an `if` ends no operand. -/
  last : Option Token := none
  /-- The ranks of the operators outside all brackets. -/
  exposed : List Rank := []
  deriving DecidableEq, Repr

namespace Outline

/-- Put a token that is no bracket. -/
def put (outline : Outline) (token : Token) : Outline :=
  if outline.opened = [] then
    { outline with
      last := some token
      exposed := (token.rank? outline.last).toList ++ outline.exposed }
  else outline

/-- The outline behind one more token, unless it closes another bracket than the innermost. -/
def add (outline : Outline) : Token → Option Outline
  | .opening bracket => some { outline with opened := bracket :: outline.opened }
  | .closing bracket =>
    match outline.opened with
    | [] => none
    | innermost :: rest =>
      if closer? innermost = some bracket then
        some { outline with
          opened := rest
          last :=
            if rest ≠ [] then outline.last
            else if outline.last = some .ifWord then none
            else some (.closing bracket) }
      else none
  | token => some (outline.put token)

def addAll (outline : Outline) (tokens : List Token) : Option Outline :=
  tokens.foldlM add outline

end Outline

def outline? (text : List Char) : Option Outline := do
  Outline.addAll {} (← tokens text)

end BlockSynth.Zig
