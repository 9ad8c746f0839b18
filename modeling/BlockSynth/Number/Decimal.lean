import BlockSynth.Number.Binary64
import BlockSynth.Text.Shape

/-! # Decimal numbers

A decimal is read from text as digits and a power of ten and then rounded once.
-/
namespace BlockSynth

-- Powers of numbers are the ones of the core library, whatever else is imported.
attribute [local instance (high)] instPowNat

/-- `digits * 10 ^ exponent` with a sign. -/
structure Decimal where
  negative : Bool := false
  digits : Nat
  exponent : Int := 0
  deriving DecidableEq, Repr

namespace Decimal

/-- A power of ten from which on every number is beyond the greatest finite one. -/
def overflowExponent : Int := 310

/-- Whether the decimal is so small that it rounds to zero, seen from its bit length alone. -/
def vanishes (d : Decimal) : Bool :=
  (d.digits.log2 : Int) + 1 + 3 * d.exponent < -1100

/-- The nearest binary64 number. The two tests keep powers of ten in proportion to the digits. -/
def toBinary64 (d : Decimal) : Binary64 :=
  if d.digits = 0 then .zero d.negative
  else if d.exponent ≥ overflowExponent then .infinite d.negative
  else if d.exponent < 0 ∧ d.vanishes then .zero d.negative
  else .ofRatio d.negative (d.digits * 10 ^ d.exponent.toNat) (10 ^ (-d.exponent).toNat)

/-- The decimal with the given digits before and after its point and a power of ten. -/
def ofParts (negative : Bool) (whole fraction : List Char) (exponent : Int) : Decimal where
  negative
  digits := Chars.natOfDigits (whole ++ fraction)
  exponent := exponent - fraction.length

end Decimal

namespace Chars

/-- The digits that a text starts with, and the rest. -/
def spanDigits (text : List Char) : List Char × List Char :=
  (text.takeWhile Char.isDigit, text.dropWhile Char.isDigit)

/-- The fraction that may follow the whole part of a number, and the rest. -/
def spanFraction : List Char → List Char × List Char
  | '.' :: rest => spanDigits rest
  | rest => ([], rest)

/-- The value of an optional exponent that ends a text. -/
def exponent? : List Char → Option Int
  | [] => some 0
  | mark :: rest =>
    if mark.toLower = 'e' then
      match rest with
      | '-' :: digits => if isDigits digits then some (-natOfDigits digits) else none
      | '+' :: digits => if isDigits digits then some (natOfDigits digits) else none
      | digits => if isDigits digits then some (natOfDigits digits) else none
    else none

def splitAnySign : List Char → Bool × List Char
  | '-' :: rest => (true, rest)
  | '+' :: rest => (false, rest)
  | text => (false, text)

end Chars

namespace Binary64

/-- Read a number as a person may write it: a sign, digits with or without a point, an exponent, or
the words for infinity and not-a-number in any case. -/
def ofText? (text : String) : Option Binary64 :=
  let (negative, unsigned) := Chars.splitAnySign text.toList
  let word := String.ofList (unsigned.map Char.toLower)
  if word = "inf" ∨ word = "infinity" then some (infinite negative)
  else if word = "nan" then some nan
  else
    let (whole, rest) := Chars.spanDigits unsigned
    let (fraction, rest) := Chars.spanFraction rest
    if whole.isEmpty && fraction.isEmpty then none
    else (Chars.exponent? rest).map fun exponent =>
      (Decimal.ofParts negative whole fraction exponent).toBinary64

end Binary64

end BlockSynth
