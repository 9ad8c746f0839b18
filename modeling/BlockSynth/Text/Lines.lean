import BlockSynth.Text.Blank

/-! # Lines of generated text

Generated code is put together from fragments of whole lines. This module splits text at newlines,
indents it, shortens runs of blank lines, and brings a finished program into its final form.
-/
namespace BlockSynth.Chars

/-- The lines of a text, each with the newline that ends it. -/
def pieces : List Char → List (List Char)
  | [] => []
  | c :: rest =>
    if c = '\n' then ['\n'] :: pieces rest
    else match pieces rest with
      | [] => [[c]]
      | piece :: more => (c :: piece) :: more

/-- Put `mark` in front of every line. Nothing follows a final newline, so text that ends its last
line still does afterwards. -/
def prefixLines (mark text : List Char) : List Char :=
  (pieces text).flatMap (mark ++ ·)

/-- The parts of a text between its newlines; a text with `n` newlines has `n + 1` of them. -/
def splitLines : List Char → List (List Char)
  | [] => [[]]
  | c :: rest =>
    if c = '\n' then [] :: splitLines rest
    else match splitLines rest with
      | [] => [[c]]
      | line :: more => (c :: line) :: more

def joinLines : List (List Char) → List Char
  | [] => []
  | [line] => line
  | line :: next :: more => line ++ '\n' :: joinLines (next :: more)

/-- A line without its line break, which is a newline or a carriage return and a newline. -/
def withoutBreak (piece : List Char) : List Char :=
  match piece.reverse with
  | '\n' :: '\r' :: rest => rest.reverse
  | '\n' :: rest => rest.reverse
  | _ => piece

/-- The right-trimmed lines from the first to the last one that is not blank. -/
def tidyLines (text : List Char) : List (List Char) :=
  let lines := (pieces text).map (fun piece => trimEnd (withoutBreak piece))
  ((lines.dropWhile List.isEmpty).reverse.dropWhile List.isEmpty).reverse

/-- The final form of a program: no leading or trailing blank lines, no trailing white space, one
newline at the end. -/
def tidy (text : List Char) : List Char :=
  match tidyLines text with
  | [] => []
  | lines => joinLines lines ++ ['\n']

/-- Drop each newline that follows two others; `seen` newlines stand directly before the text. -/
def collapseAfter (seen : Nat) : List Char → List Char
  | [] => []
  | c :: rest =>
    if c = '\n' then
      if seen < 2 then c :: collapseAfter (seen + 1) rest else collapseAfter seen rest
    else c :: collapseAfter 0 rest

/-- Leave at most one blank line between any two lines. -/
def collapseBlankLines (text : List Char) : List Char :=
  collapseAfter 0 text

/-- Remove the newlines at both ends. -/
def trimNewlines (text : List Char) : List Char :=
  ((text.dropWhile (· == '\n')).reverse.dropWhile (· == '\n')).reverse

end BlockSynth.Chars

namespace BlockSynth.Text

def prefixLines (mark text : String) : String :=
  String.ofList (Chars.prefixLines mark.toList text.toList)

def tidy (text : String) : String :=
  String.ofList (Chars.tidy text.toList)

def collapseBlankLines (text : String) : String :=
  String.ofList (Chars.collapseBlankLines text.toList)

def trimNewlines (text : String) : String :=
  String.ofList (Chars.trimNewlines text.toList)

/-- The texts of a list with `between` after each but the last. -/
def join (between : String) : List String → String
  | [] => ""
  | [text] => text
  | text :: next :: more => text ++ between ++ join between (next :: more)

end BlockSynth.Text
