import BlockSynth.Rank
import BlockSynth.Text.Shape

/-! # Index arithmetic

An index is shifted by a constant and perhaps negated. A literal index is computed at once, within
signed 64-bit words; any other is given the arithmetic as code, wrapped where its place asks for it.
-/
namespace BlockSynth

/-- An index as it has been rendered. -/
inductive IndexOperand
  | literal (value : Int)
  | code (text : String)
  deriving DecidableEq, Repr

namespace IndexOperand

def ofCode (text : String) : IndexOperand :=
  match Text.intLiteral? text with
  | some value => literal value
  | none => code text

/-- The nearest signed 64-bit word. -/
def saturate (value : Int) : Int :=
  max leastWord (min greatestWord value)

/-- The rank to ask of an index that is to be shifted and negated. -/
def operandRank (delta : Int) (negate : Bool) (place : Rank) : Rank :=
  if delta ≠ 0 then .additive else if negate then .unaryPrefix else place

def shiftCode (text : String) (delta : Int) : String :=
  if delta > 0 then s!"{text} + {delta}"
  else if delta < 0 then s!"{text} - {delta.natAbs}"
  else text

/-- The rank of the arithmetic around an index, if there is any. -/
def shiftRank? (delta : Int) (negate : Bool) : Option Rank :=
  if negate then some .unaryPrefix else if delta ≠ 0 then some .additive else none

/-- The index moved by `delta`, negated if so wanted, as code for a place of rank `place`. -/
def adjust (delta : Int) (negate : Bool) (place : Rank) : IndexOperand → String
  | literal value =>
    let moved := saturate (value + delta)
    toString (if negate then saturate (-moved) else moved)
  | code text =>
    let moved := shiftCode text delta
    let signed := if negate then (if delta ≠ 0 then s!"-({moved})" else s!"-{moved}") else moved
    match shiftRank? delta negate with
    | some rank => if place.needsParens rank then s!"({signed})" else signed
    | none => signed

end IndexOperand

end BlockSynth
