import BlockSynth.Number.Binary64

/-! # Number text

A number is written with the fewest decimal digits that read back as the same number, of these with
the ones nearest to it, and always in positional form.
-/
namespace BlockSynth.Binary64

-- Powers of numbers are the ones of the core library, whatever else is imported.
attribute [local instance (high)] instPowNat

/-- The reals that round to a positive number, scaled to integers over a common denominator: the
lower end, the number itself and the upper end. -/
structure Span where
  low : Nat
  value : Nat
  high : Nat
  denominator : Nat
  closed : Bool

/-- The gap below a power of two is half as wide as the one above it. -/
def span (significand : Nat) (exponent : Int) : Span :=
  let unit := 2 ^ (exponent - 2).toNat
  let below := if significand = 2 ^ (52 : Nat) ∧ exponent > leastExponent then 1 else 2
  { low := (4 * significand - below) * unit
    value := 4 * significand * unit
    high := (4 * significand + 2) * unit
    denominator := 2 ^ (2 - exponent).toNat
    closed := significand % 2 = 0 }

/-- The multiple of `10 ^ grid` in the span that is nearest to its value, the greater of two. -/
def Span.onGrid? (s : Span) (grid : Int) : Option Nat :=
  let scale := 10 ^ (-grid).toNat
  let step := s.denominator * 10 ^ grid.toNat
  let value := s.value * scale
  let floor := value / step
  let lowHit :=
    if s.closed then s.low * scale ≤ floor * step else s.low * scale < floor * step
  let highHit :=
    if s.closed then (floor + 1) * step ≤ s.high * scale else (floor + 1) * step < s.high * scale
  if lowHit ∧ highHit then
    some (if 2 * (value - floor * step) < step then floor else floor + 1)
  else if lowHit then some floor
  else if highHit then some (floor + 1)
  else none

/-- The first grid with a hit, from coarse to fine. -/
def Span.search (s : Span) (grid : Int) : Nat → Nat × Int
  | 0 => (s.value * 10 ^ (-grid).toNat / (s.denominator * 10 ^ grid.toNat), grid)
  | fuel + 1 =>
    match s.onGrid? grid with
    | some digits => (digits, grid)
    | none => s.search (grid - 1) fuel

/-- Digits and power of ten. Seventeen digits always suffice, and the search starts at most three
places above the first one. -/
def shortest (significand : Nat) (exponent : Int) : Nat × Int :=
  let top := ((significand.log2 : Int) + 1 + exponent) * 30103 / 100000 + 2
  (span significand exponent).search top 24

/-- Digits with the point `places` places from their end. -/
def pointText (digits : String) (places : Nat) : String :=
  let shown := String.ofList (List.replicate (places + 1 - digits.length) '0') ++ digits
  let whole := shown.toList.take (shown.length - places)
  let fraction := shown.toList.drop (shown.length - places)
  String.ofList whole ++ "." ++ String.ofList fraction

def positional (digits : Nat) (grid : Int) : String :=
  if grid ≥ 0 then toString digits ++ String.ofList (List.replicate grid.toNat '0')
  else pointText (toString digits) (-grid).toNat

def magnitudeText (significand : Nat) (exponent : Int) : String :=
  if significand = 0 then "0"
  else
    let (digits, grid) := shortest significand exponent
    positional digits grid

def toText : Binary64 → String
  | nan => "NaN"
  | infinite negative => if negative then "-inf" else "inf"
  | finite negative significand exponent =>
    (if negative then "-" else "") ++ magnitudeText significand exponent

/-- Integral numbers below this bound are written as integers in code. -/
def integerBound : Nat := 10 ^ (15 : Nat)

/-- The text of a number in code: integers without a sign on zero, all else as digits. -/
def codeText (number : Binary64) : String :=
  match number.integer? with
  | some n => if n.natAbs < integerBound then toString n else number.toText
  | none => number.toText

end BlockSynth.Binary64
