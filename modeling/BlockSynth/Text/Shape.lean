import BlockSynth.Text.Blank

/-! # Shapes of rendered code

Tests on code that has been rendered already: whether it is a single word, and may be repeated
without being evaluated twice, or a literal number, with which one can compute at once.
-/
namespace BlockSynth.Chars

def isWordChar (c : Char) : Bool :=
  c.isAlphanum || c == '_'

def isWord (code : List Char) : Bool :=
  !code.isEmpty && code.all isWordChar

/-- A word, with or without the delimiter at either end. -/
def isQuotedWord (delimiter : Char) (code : List Char) : Bool :=
  let opened := if code.head? == some delimiter then code.tail else code
  let closed := if opened.getLast? == some delimiter then opened.dropLast else opened
  isWord closed

def isDigits (text : List Char) : Bool :=
  !text.isEmpty && text.all Char.isDigit

def natOfDigits (digits : List Char) : Nat :=
  digits.foldl (fun n c => 10 * n + (c.toNat - '0'.toNat)) 0

/-- A text without its leading minus sign, and whether it had one. -/
def splitSign : List Char → Bool × List Char
  | '-' :: rest => (true, rest)
  | text => (false, text)

end BlockSynth.Chars

namespace BlockSynth

-- Powers of numbers are the ones of the core library, whatever else is imported.
attribute [local instance (high)] instPowNat

/-- The least and the greatest integer that code is computed with. -/
def leastWord : Int := -2 ^ (63 : Nat)

@[inherit_doc leastWord]
def greatestWord : Int := 2 ^ (63 : Nat) - 1

namespace Text

def isWord (code : String) : Bool :=
  Chars.isWord code.toList

def isQuotedWord (delimiter : Char) (code : String) : Bool :=
  Chars.isQuotedWord delimiter code.toList

/-- The value of an integer literal, blanks around it allowed, if it fits a signed 64-bit word. -/
def intLiteral? (code : String) : Option Int :=
  let (negative, digits) := Chars.splitSign (Chars.trim code.toList)
  if Chars.isDigits digits then
    let n : Int := Chars.natOfDigits digits
    let value := if negative then -n else n
    if leastWord ≤ value ∧ value ≤ greatestWord then some value else none
  else none

/-- A decimal literal: digits, perhaps a point and more digits, perhaps a minus sign in front. -/
def isNumberLiteral (code : String) : Bool :=
  let (_, unsigned) := Chars.splitSign (Chars.trim code.toList)
  let whole := unsigned.takeWhile (· != '.')
  match unsigned.dropWhile (· != '.') with
  | [] => Chars.isDigits whole
  | _ :: fraction => Chars.isDigits whole && Chars.isDigits fraction

end Text

end BlockSynth
