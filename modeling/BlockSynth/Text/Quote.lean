import BlockSynth.Text.Lines
import BlockSynth.Text.Replace

/-! # String literals

A literal escapes the backslash, its own delimiter and every ASCII control character; all other
characters, those outside ASCII included, stand for themselves. A text of several lines can also be
written as one literal per line, joined by the target's concatenation operator.
-/
namespace BlockSynth

/-- How a target spells string literals: the character around them and the operator between them. -/
structure QuoteStyle where
  delimiter : Char := '"'
  concat : String := "++"
  deriving DecidableEq, Repr

namespace Chars

def isControl (c : Char) : Bool :=
  c.toNat < 0x20 || c.toNat == 0x7f

/-- Two lowercase hexadecimal digits. -/
def hexByte (n : Nat) : List Char :=
  [Nat.digitChar (n / 16), Nat.digitChar (n % 16)]

def escape (delimiter c : Char) : List Char :=
  if c = '\\' then ['\\', '\\']
  else if c = '\n' then ['\\', 'n']
  else if c = '\r' then ['\\', 'r']
  else if c = '\t' then ['\\', 't']
  else if c = delimiter then ['\\', c]
  else if isControl c then '\\' :: 'x' :: hexByte c.toNat
  else [c]

def quote (delimiter : Char) (raw : List Char) : List Char :=
  delimiter :: (raw.flatMap (escape delimiter) ++ [delimiter])

end Chars

namespace QuoteStyle

def quote (style : QuoteStyle) (raw : String) : String :=
  String.ofList (Chars.quote style.delimiter raw.toList)

/-- What stands between the literals of two lines: a newline literal between two concatenations, and
a line break. -/
def lineJoiner (style : QuoteStyle) : String :=
  let newline := style.quote "\n"
  s!" {style.concat} {newline} {style.concat}\n"

def quoteLines (style : QuoteStyle) (raw : String) : String :=
  Text.join style.lineJoiner
    ((Chars.splitLines raw.toList).map fun line => style.quote (String.ofList line))

/-- Fill a template: every `%1` becomes the literal of `id`. -/
def inject (style : QuoteStyle) (template id : String) : String :=
  Text.replace "%1" (style.quote id) template

end QuoteStyle

end BlockSynth
