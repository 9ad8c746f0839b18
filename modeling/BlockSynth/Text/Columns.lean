import BlockSynth.Text.Lines

/-! # Aligned trailing comments

The `//` comments of all lines but the first are moved to one column, counted in UTF-8 bytes, by
spaces in front of them.
-/
namespace BlockSynth.Chars

-- Sums of numbers start from the zero of the core library, whatever else is imported.
attribute [local instance (high)] Zero.ofOfNat0

/-- A line cut at its first `//`. -/
def splitComment : List Char → Option (List Char × List Char)
  | '/' :: '/' :: rest => some ([], '/' :: '/' :: rest)
  | c :: rest => (splitComment rest).map fun (code, comment) => (c :: code, comment)
  | [] => none

def byteLength (text : List Char) : Nat :=
  (text.map Char.utf8Size).sum

def commentColumn (line : List Char) : Option Nat :=
  (splitComment line).map fun (code, _) => byteLength code

def moveComment (column : Nat) (line : List Char) : List Char :=
  match splitComment line with
  | some (code, comment) => code ++ List.replicate (column - byteLength code) ' ' ++ comment
  | none => line

def alignComments : List (List Char) → List (List Char)
  | [] => []
  | first :: rest =>
    let column := (rest.filterMap commentColumn).foldl max 0
    first :: rest.map (moveComment column)

end BlockSynth.Chars

namespace BlockSynth.Text

def alignComments (lines : List String) : List String :=
  (Chars.alignComments (lines.map String.toList)).map String.ofList

end BlockSynth.Text
