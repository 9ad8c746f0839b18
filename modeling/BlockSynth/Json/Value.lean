import BlockSynth.Number.Decimal

/-! # Document values

A document is kept as it is written: members in their order and as often as they occur, numbers as
exact decimals. A text that does not follow the grammar is kept up to the place where it breaks off,
so that whoever decodes it meets what is wrong with it in the order in which it is written. What is
wrong with a document is one of three defects.
-/
namespace BlockSynth

inductive Defect
  /-- The text ends too early. -/
  | cutShort
  /-- The text does not follow the grammar or goes beyond its limits. -/
  | malformed
  /-- The value does not have the shape that is asked for. -/
  | misshapen
  deriving DecidableEq, Repr

/-- How a text breaks off: the defect met by one who looks at what stands there, and by one who
passes over it. The latter takes the end of the text inside a number for a wrong character, and does
not ask whether surrogates are paired. -/
structure Breach where
  looking : Defect
  passing : Defect
  deriving DecidableEq, Repr

/-- A place that is as bad for either. -/
def Breach.always (defect : Defect) : Breach :=
  { looking := defect, passing := defect }

/-- The contents of a string, or nothing if an escape in it names half of a surrogate pair. -/
abbrev JsonText := Option String

/-- `plain` numbers are written with digits and a sign alone. A container that is not closed after
its last item or member has a breach there. -/
inductive Json
  | null
  | bool (value : Bool)
  | number (value : Decimal) (plain : Bool)
  | text (value : JsonText)
  | array (items : List Json) (breach : Option Breach)
  | object (members : List (JsonText × Json)) (breach : Option Breach)
  | broken (breach : Breach)
  deriving Repr

namespace Json

def isContainer : Json → Bool
  | array .. => true
  | object .. => true
  | _ => false

end Json

/-- The value at the front of a text, and whether more than white space follows it. -/
structure Document where
  value : Json
  trailing : Bool := false
  deriving Repr

/-- Decode the value of a document. What follows it is noticed last. -/
def Document.decode {α : Type} (document : Document) (decode : Json → Except Defect α) :
    Except Defect α := do
  let found ← decode document.value
  if document.trailing then throw .malformed else return found

end BlockSynth
