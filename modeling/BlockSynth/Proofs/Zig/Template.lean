import BlockSynth.Proofs.Zig.Operand

/-! # Helper templates

A helper is realized by trimming its template, writing its name for every mark and
changing the unit of indentation. Its text is closed if a sketch of the template, an
operand standing for every mark, closes.
-/
namespace BlockSynth.Zig

/-! ### Finding the characters -/

class Verbatim (code : String) (chars : outParam (List Char)) : Prop where
  eq : code.toList = chars

instance (priority := low) verbatim_literal (code : String) (chars : List Char)
    [h : Literal code (String.ofList chars)] : Verbatim code chars where
  eq := by rw [h.eq, String.toList_ofList]

instance (priority := high) verbatim_append (code more : String)
    (chars others : List Char) [hc : Verbatim code chars] [hm : Verbatim more others] :
    Verbatim (code ++ more) (chars ++ others) where
  eq := by rw [String.toList_append, hc.eq, hm.eq]

instance (priority := high) verbatim_toString (code : String) (chars : List Char)
    [h : Verbatim code chars] : Verbatim (toString code) chars := h

/-- The characters of several strings. -/
class VerbatimAll (codes : List String) (lines : outParam (List (List Char))) : Prop where
  eq : codes.map String.toList = lines

instance verbatimAll_nil : VerbatimAll [] [] := ⟨rfl⟩

instance verbatimAll_cons (code : String) (codes : List String) (chars : List Char)
    (lines : List (List Char)) [hc : Verbatim code chars] [hm : VerbatimAll codes lines] :
    VerbatimAll (code :: codes) (chars :: lines) where
  eq := by rw [List.map_cons, hc.eq, hm.eq]

instance verbatimAll_append (codes more : List String) (lines others : List (List Char))
    [hc : VerbatimAll codes lines] [hm : VerbatimAll more others] :
    VerbatimAll (codes ++ more) (lines ++ others) where
  eq := by rw [List.map_append, hc.eq, hm.eq]

instance verbatimAll_indented (codes : List String) (lines : List (List Char))
    [h : VerbatimAll codes lines] :
    VerbatimAll (codes.map ("  " ++ ·)) (lines.map ([' ', ' '] ++ ·)) where
  eq := by
    rw [← h.eq, List.map_map, List.map_map]
    refine List.map_congr_left fun code _ => ?_
    simp

instance verbatimAll_block (head : String) (body : List String) (chars : List Char)
    (lines : List (List Char)) [hh : Verbatim head chars] [hb : VerbatimAll body lines] :
    VerbatimAll (block head body)
      ((chars ++ [' ', '\x7b']) :: lines.map ([' ', ' '] ++ ·) ++ [['\x7d']]) where
  eq := by
    have hbody := (verbatimAll_indented body lines).eq
    simp only [block, List.map_cons, List.map_append, String.toList_append, hh.eq, hbody]
    rfl

instance verbatimAll_blockElse (head otherHead : String) (body otherBody : List String)
    (chars others : List Char) (lines otherLines : List (List Char))
    [hh : Verbatim head chars] [ho : Verbatim otherHead others]
    [hb : VerbatimAll body lines] [hc : VerbatimAll otherBody otherLines] :
    VerbatimAll (blockElse head body otherHead otherBody)
      ((chars ++ [' ', '\x7b']) :: lines.map ([' ', ' '] ++ ·) ++
        (['\x7d', ' ', 'e', 'l', 's', 'e', ' '] ++ others ++ [' ', '\x7b']) ::
          otherLines.map ([' ', ' '] ++ ·) ++ [['\x7d']]) where
  eq := by
    have hbody := (verbatimAll_indented body lines).eq
    have hother := (verbatimAll_indented otherBody otherLines).eq
    simp only [blockElse, List.map_cons, List.map_append, String.toList_append, hh.eq,
      ho.eq, hbody, hother]
    rfl

theorem toList_join_newline (codes : List String) :
    (Text.join "\n" codes).toList = Chars.joinLines (codes.map String.toList) := by
  induction codes with
  | nil => rfl
  | cons code rest ih =>
    cases rest with
    | nil => rfl
    | cons next more => simp [Text.join, Chars.joinLines, ih]

instance verbatim_concat (codes : List String)
    (lines : List (List Char)) [h : VerbatimAll codes lines] :
    Verbatim (String.join codes) lines.flatten where
  eq := by rw [String.toList_join, ← h.eq, List.flatMap_def]

/-- The characters of the mark. -/
def markChars : List Char :=
  ['\x7b', '\x7b', 'H', 'E', 'L', 'P', 'E', 'R', '\x7d', '\x7d']

theorem toList_helperMark : helperMark.toList = markChars := by decide

instance verbatim_helperMark : Verbatim helperMark markChars := ⟨toList_helperMark⟩

instance verbatim_routine (signature : String) (body : List String) (chars : List Char)
    (lines : List (List Char)) [hs : Verbatim signature chars] [hb : VerbatimAll body lines] :
    Verbatim (routine signature body)
      ('\n' :: Chars.joinLines ((['f', 'n', ' '] ++ markChars ++ chars ++ [' ', '\x7b']) ::
        lines.map ([' ', ' '] ++ ·) ++ [['\x7d']]) ++ ['\n']) where
  eq := by
    have hlines := (verbatimAll_block ("fn " ++ helperMark ++ signature) body _ lines).eq
    simp only [routine, String.toList_append, toList_join_newline, hlines]
    rfl

/-! ### Sketching a template -/

/-- The pieces of a text in which every occurrence of a pattern becomes an atom. -/
def markedPieces (pattern : List Char) : Nat → List Char → List Piece
  | _, [] => []
  | skip + 1, _ :: rest => markedPieces pattern skip rest
  | 0, c :: rest =>
    if pattern.isPrefixOf (c :: rest) then
      .operand .atomic :: markedPieces pattern (pattern.length - 1) rest
    else .chars [c] :: markedPieces pattern 0 rest

theorem composed_markedPieces {pattern name : List Char} (hname : Atom name) (skip : Nat)
    (text : List Char) :
    Composed (markedPieces pattern skip text) (Chars.replaceAfter pattern name skip text) := by
  induction text generalizing skip with
  | nil => cases skip <;> rfl
  | cons c rest ih =>
    cases skip with
    | succ skip => exact ih skip
    | zero =>
      simp only [markedPieces, Chars.replaceAfter]
      split
      · exact ⟨name, _, rfl, hname, ih _⟩
      · exact ⟨[c], _, rfl, rfl, ih 0⟩

def templateCloses (template : List Char) : Bool :=
  closesAll (markedPieces markChars 0 (Chars.trim template))

/-- Templates whose helpers close all they open, by whatever name and unit of indentation. -/
class ClosedTemplate (template : String) : Prop where
  closed : ∀ unit name : String, IsIndent unit.toList → Atom name.toList →
    Closed (realizeTemplate unit template name).toList

theorem closedTemplate_of_verbatim {template : String} {chars : List Char}
    [h : Verbatim template chars] (hcloses : templateCloses chars = true) :
    ClosedTemplate template := by
  constructor
  intro unit name hunit hname
  have hmarked : Closed (Text.replace helperMark name (Text.trim template)).toList := by
    refine closed_of_composed hcloses ?_
    have hpieces := @composed_markedPieces markChars _ hname 0 (Chars.trim template.toList)
    simpa [Text.replace, Text.trim, Chars.replace, toList_helperMark, h.eq] using hpieces
  unfold realizeTemplate Text.reindent
  split
  · exact hmarked
  · rw [String.toList_ofList]
    exact hmarked.of_alike (alike_reindent hunit _)

end BlockSynth.Zig
