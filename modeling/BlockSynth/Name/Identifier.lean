import BlockSynth.Text.Shape

/-! # Identifiers

People name variables and procedures as they like. Sanitizing turns any name into an identifier:
word characters stay, every other ASCII character becomes an underscore, and each UTF-8 byte of any
other character becomes an underscore and two hexadecimal digits.
-/
namespace BlockSynth.Chars

def isIdentifierStart (c : Char) : Bool :=
  c.isAlpha || c == '_'

/-- A letter or underscore and then word characters. -/
def isIdentifier : List Char → Bool
  | [] => false
  | c :: rest => isIdentifierStart c && rest.all isWordChar

def upperHexDigit (n : Nat) : Char :=
  (Nat.digitChar n).toUpper

def escapeByte (byte : UInt8) : List Char :=
  ['_', upperHexDigit (byte.toNat / 16), upperHexDigit (byte.toNat % 16)]

def sanitizeChar (c : Char) : List Char :=
  if isWordChar c then [c]
  else if c.toNat < 0x80 then ['_']
  else (String.utf8EncodeChar c).flatMap escapeByte

/-- An identifier does not start with a digit. -/
def guardStart (text : List Char) : List Char :=
  if (text.head?.any Char.isDigit) then ['m', 'y', '_'] ++ text else text

def sanitize : List Char → List Char
  | [] => ['u', 'n', 'n', 'a', 'm', 'e', 'd']
  | name => guardStart (name.flatMap sanitizeChar)

end BlockSynth.Chars

namespace BlockSynth.Text

def sanitize (name : String) : String :=
  String.ofList (Chars.sanitize name.toList)

end BlockSynth.Text
