/-! # Replacing a pattern

Every occurrence of a pattern, found from left to right and without overlap, gives way
to a new text.
-/
namespace BlockSynth.Chars

/-- Replace the occurrences of `pattern` after the first `skip` characters, which belong to an
occurrence that has been replaced already. -/
def replaceAfter (pattern new : List Char) : Nat → List Char → List Char
  | _, [] => []
  | skip + 1, _ :: rest => replaceAfter pattern new skip rest
  | 0, c :: rest =>
    if pattern.isPrefixOf (c :: rest) then
      new ++ replaceAfter pattern new (pattern.length - 1) rest
    else c :: replaceAfter pattern new 0 rest

def replace (pattern new text : List Char) : List Char :=
  replaceAfter pattern new 0 text

end BlockSynth.Chars

namespace BlockSynth.Text

/-- Replace every occurrence of a pattern that is not empty. -/
def replace (pattern new text : String) : String :=
  String.ofList (Chars.replace pattern.toList new.toList text.toList)

end BlockSynth.Text
