/-! # Binary64 numbers

The numbers of a graph are the IEEE 754 doubles. They are kept exactly, as a sign, a significand and
a power of two, so that reading and printing them are integer computations.
-/
namespace BlockSynth

-- Powers of numbers are the ones of the core library, whatever else is imported.
attribute [local instance (high)] instPowNat

/-- `finite s m e` stands for `m * 2 ^ e` with the sign `s`. -/
inductive Binary64
  | nan
  | infinite (negative : Bool)
  | finite (negative : Bool) (significand : Nat) (exponent : Int)
  deriving DecidableEq, Repr

namespace Binary64

def leastExponent : Int := -1074

def greatestExponent : Int := 971

def zero (negative : Bool) : Binary64 :=
  finite negative 0 leastExponent

/-- The quotient to the nearest integer, a tie to the even one. -/
def roundQuotient (num den : Nat) : Nat :=
  let quotient := num / den
  let rest := num % den
  if 2 * rest < den then quotient
  else if den < 2 * rest then quotient + 1
  else quotient + quotient % 2

/-- Numerator and denominator of `num / den / 2 ^ exponent`. -/
def scaleRatio (num den : Nat) (exponent : Int) : Nat × Nat :=
  (num * 2 ^ (-exponent).toNat, den * 2 ^ exponent.toNat)

/-- The exponent at which the significand of a positive ratio has 53 bits, or the least one. -/
def ratioExponent (num den : Nat) : Int :=
  let guess : Int := (num.log2 : Int) - (den.log2 : Int) - 52
  let (n, d) := scaleRatio num den guess
  max leastExponent (if n / d < 2 ^ (52 : Nat) then guess - 1 else guess)

/-- The number nearest to a ratio, a tie to the even significand. -/
def ofRatio (negative : Bool) (num den : Nat) : Binary64 :=
  if num = 0 then zero negative
  else
    let exponent := ratioExponent num den
    let (n, d) := scaleRatio num den exponent
    let significand := roundQuotient n d
    let (significand, exponent) :=
      if significand = 2 ^ (53 : Nat) then (2 ^ (52 : Nat), exponent + 1)
        else (significand, exponent)
    if exponent > greatestExponent then infinite negative
    else finite negative significand exponent

/-- How many times the least positive number a finite number is. -/
def scaled (negative : Bool) (significand : Nat) (exponent : Int) : Int :=
  let magnitude : Int := significand * 2 ^ (exponent - leastExponent).toNat
  if negative then -magnitude else magnitude

/-- The order of numbers; nothing is below or above a NaN. -/
def le : Binary64 → Binary64 → Bool
  | nan, _ => false
  | _, nan => false
  | infinite negative, b => negative || b == infinite false
  | _, infinite negative => !negative
  | finite s m e, finite s' m' e' => scaled s m e ≤ scaled s' m' e'

def isNegative : Binary64 → Bool
  | nan => false
  | infinite negative => negative
  | finite negative significand _ => negative && significand != 0

def abs : Binary64 → Binary64
  | nan => nan
  | infinite _ => infinite false
  | finite _ significand exponent => finite false significand exponent

/-- The integer that a number is, if it is one. -/
def integer? : Binary64 → Option Int
  | finite negative significand exponent =>
    let whole := significand * 2 ^ exponent.toNat
    let parts := 2 ^ (-exponent).toNat
    if whole % parts = 0 then
      let magnitude : Int := (whole / parts : Nat)
      some (if negative then -magnitude else magnitude)
    else none
  | _ => none

end Binary64

end BlockSynth
