/-! # Blank characters

White space is the Unicode property White_Space: the ASCII blanks and line separators together with
the no-break, ogham, typographic, mathematical and ideographic spaces. Zero-width characters are not
blank.
-/
namespace BlockSynth.Chars

def isBlank (c : Char) : Bool :=
  let n := c.toNat
  (0x09 ≤ n && n ≤ 0x0d) || n == 0x20 || n == 0x85 || n == 0xa0 || n == 0x1680 ||
    (0x2000 ≤ n && n ≤ 0x200a) || n == 0x2028 || n == 0x2029 || n == 0x202f || n == 0x205f ||
    n == 0x3000

def trimStart (text : List Char) : List Char :=
  text.dropWhile isBlank

def trimEnd (text : List Char) : List Char :=
  (text.reverse.dropWhile isBlank).reverse

def trim (text : List Char) : List Char :=
  trimEnd (trimStart text)

end BlockSynth.Chars

namespace BlockSynth.Text

def trim (text : String) : String :=
  String.ofList (Chars.trim text.toList)

end BlockSynth.Text
