import BlockSynth.Proofs.Text.Columns
import Mathlib.Data.List.Forall2
import Mathlib.Order.Bounds.Basic

/-! # Aligned comments

The comments of all lines but the first go to the greatest column that one of them stands at. Only
spaces are put in front of them. Spaces make no comment begin earlier, not even behind a slash, so
the comments are found where they have been put, and aligning the lines once more changes nothing.
-/
namespace BlockSynth.Chars

variable {line code comment : List Char}

/-! ### Cutting lines -/

/-- A line cut at its first two slashes. -/
structure Cut (line code comment : List Char) : Prop where
  whole : line = code ++ comment
  opens : slashes <+: comment
  clear : Clear code

theorem splitComment_of_free (h : ¬slashes <:+: line) : splitComment line = none := by
  induction line with
  | nil => rfl
  | cons c line ih =>
    rw [List.infix_cons_iff, not_or] at h
    rw [splitComment_cons h.1, ih h.2]
    rfl

theorem Cut.splitComment (h : Cut line code comment) :
    splitComment line = some (code, comment) := by
  obtain ⟨rfl, ⟨rest, rfl⟩, hclear⟩ := h
  exact hclear.splitComment rest

theorem Cut.isInfix (h : Cut line code comment) : slashes <:+: line := by
  rw [h.whole]
  exact h.opens.isInfix.trans (List.suffix_append code comment).isInfix

theorem exists_cut (h : slashes <:+: line) : ∃ code comment, Cut line code comment := by
  obtain ⟨code, rest, hline, hclear⟩ := exists_clear h
  exact ⟨code, slashes ++ rest, hline, List.prefix_append slashes rest, hclear⟩

/-- A comment is found at a column if the first two slashes stand there. -/
theorem commentColumn_eq_some_iff {column : Nat} :
    commentColumn line = some column ↔ ∃ code comment,
      Cut line code comment ∧ byteLength code = column := by
  rw [commentColumn, Option.map_eq_some_iff]
  constructor
  · rintro ⟨⟨code, comment⟩, hsplit, hcolumn⟩
    by_cases hfound : slashes <:+: line
    · obtain ⟨code', comment', hcut⟩ := exists_cut hfound
      rw [hcut.splitComment] at hsplit
      obtain ⟨rfl, rfl⟩ := Prod.mk.inj (Option.some.inj hsplit)
      exact ⟨code', comment', hcut, hcolumn⟩
    · rw [splitComment_of_free hfound] at hsplit
      simp at hsplit
  · rintro ⟨code, comment, hcut, hcolumn⟩
    exact ⟨(code, comment), hcut.splitComment, hcolumn⟩

/-! ### Spaces in front of a comment -/

theorem Clear.append_spaces (h : Clear code) (n : Nat) : Clear (code ++ List.replicate n ' ') := by
  cases n with
  | zero => rwa [List.replicate_zero, List.append_nil]
  | succ n =>
    intro hfound
    rw [List.replicate_succ, List.append_assoc, List.cons_append] at hfound
    have hspace : ' ' ∉ slashes := by decide
    rcases infix_append_cons hspace hfound with hcode | hspaces
    · exact h (hcode.trans (List.prefix_append code ['/']).isInfix)
    · have hlead : '/' ∉ List.replicate n ' ' :=
        fun hmem => absurd (List.eq_of_mem_replicate hmem) (by decide)
      rw [slashes_infix_append_iff hlead] at hspaces
      exact absurd hspaces.length_le (by decide)

theorem byteLength_spaces (n : Nat) : byteLength (List.replicate n ' ') = n := by
  simp [byteLength, Char.utf8Size]

/-- Code and its comment, with the spaces between them that move the comment to a column. -/
def padded (column : Nat) (code comment : List Char) : List Char :=
  code ++ List.replicate (column - byteLength code) ' ' ++ comment

theorem Cut.padded (h : Cut line code comment) (column : Nat) :
    Cut (padded column code comment)
      (code ++ List.replicate (column - byteLength code) ' ') comment :=
  ⟨rfl, h.opens, h.clear.append_spaces _⟩

theorem Cut.moveComment (h : Cut line code comment) (column : Nat) :
    moveComment column line = Chars.padded column code comment := by
  rw [Chars.moveComment, h.splitComment]
  rfl

theorem moveComment_of_free (h : ¬slashes <:+: line) (column : Nat) :
    moveComment column line = line := by
  rw [moveComment, splitComment_of_free h]

/-- What becomes of a line when the comments are moved to a column that none of them is behind. -/
inductive Padded (column : Nat) : List Char → List Char → Prop
  | plain {line : List Char} : ¬slashes <:+: line → Padded column line line
  | moved {line code comment : List Char} :
    Cut line code comment → byteLength code ≤ column →
    Padded column line (padded column code comment)

variable {column : Nat} {line' : List Char}

/-- The comment of a line that has been padded stands at the column. -/
theorem Padded.column_eq (h : Padded column line line')
    {code comment : List Char} (hcut : Cut line' code comment) :
    byteLength code = column := by
  cases h with
  | plain hfree => exact absurd hcut.isInfix hfree
  | @moved before behind hline hle =>
    have hsame := hcut.splitComment.symm.trans (hline.padded column).splitComment
    obtain ⟨rfl, -⟩ := Prod.mk.inj (Option.some.inj hsame)
    rw [byteLength_append, byteLength_spaces, Nat.add_sub_cancel' hle]

theorem Padded.moveComment (h : Padded column line line') : moveComment column line' = line' := by
  by_cases hfound : slashes <:+: line'
  · obtain ⟨code, comment, hcut⟩ := exists_cut hfound
    rw [hcut.moveComment, padded, h.column_eq hcut, Nat.sub_self, List.replicate_zero,
      List.append_nil, hcut.whole]
  · exact moveComment_of_free hfound column

theorem Padded.infix_iff (h : Padded column line line') :
    slashes <:+: line' ↔ slashes <:+: line := by
  cases h with
  | plain hfree => exact Iff.rfl
  | moved hcut hle => exact iff_of_true (hcut.padded column).isInfix hcut.isInfix

/-! ### The column of all comments -/

/-- The columns at which comments of the lines stand. -/
def commentColumns (lines : List (List Char)) : Set Nat :=
  {column | ∃ line ∈ lines, ∃ code comment, Cut line code comment ∧ byteLength code = column}

/-- The column that comments are moved to. -/
def greatestColumn (lines : List (List Char)) : Nat :=
  (lines.filterMap commentColumn).foldl max 0

theorem alignComments_cons (first : List Char) (rest : List (List Char)) :
    alignComments (first :: rest) = first :: rest.map (moveComment (greatestColumn rest)) := rfl

theorem mem_filterMap_commentColumn_iff {lines : List (List Char)} :
    column ∈ lines.filterMap commentColumn ↔ column ∈ commentColumns lines := by
  rw [List.mem_filterMap]
  exact exists_congr fun line => and_congr_right fun _ => commentColumn_eq_some_iff

theorem foldl_max_mem (columns : List Nat) (least : Nat) :
    columns.foldl max least = least ∨ columns.foldl max least ∈ columns := by
  induction columns generalizing least with
  | nil => exact .inl rfl
  | cons column rest ih =>
    rw [List.foldl_cons]
    rcases ih (max least column) with hleast | hrest
    · rw [hleast]
      rcases Nat.le_total least column with hle | hle
      · exact .inr (by rw [Nat.max_eq_right hle]; exact List.mem_cons_self)
      · exact .inl (Nat.max_eq_left hle)
    · exact .inr (List.mem_cons_of_mem column hrest)

theorem le_greatestColumn {lines : List (List Char)} (h : column ∈ commentColumns lines) :
    column ≤ greatestColumn lines :=
  ((foldl_max_le_iff _ 0 _).mp (Nat.le_refl (greatestColumn lines))).2 column
    (mem_filterMap_commentColumn_iff.mpr h)

theorem isGreatest_greatestColumn {lines : List (List Char)} (h : (commentColumns lines).Nonempty) :
    IsGreatest (commentColumns lines) (greatestColumn lines) := by
  refine ⟨?_, fun column => le_greatestColumn⟩
  rcases foldl_max_mem (lines.filterMap commentColumn) 0 with hzero | hmem
  · -- No comment is behind column 0, so the one there is stands at it.
    obtain ⟨column, hcolumn⟩ := h
    have hle := le_greatestColumn hcolumn
    rw [greatestColumn, hzero] at hle ⊢
    rwa [Nat.le_zero.mp hle] at hcolumn
  · exact mem_filterMap_commentColumn_iff.mp hmem

theorem padded_moveComment {lines : List (List Char)} (h : line ∈ lines) :
    Padded (greatestColumn lines) line (moveComment (greatestColumn lines) line) := by
  by_cases hfound : slashes <:+: line
  · obtain ⟨code, comment, hcut⟩ := exists_cut hfound
    rw [hcut.moveComment]
    exact .moved hcut (le_greatestColumn ⟨line, h, code, comment, hcut, rfl⟩)
  · rw [moveComment_of_free hfound]
    exact .plain hfound

/-- All comments stand at one column after they have been moved, so the greatest one is the same. -/
theorem greatestColumn_moved (lines : List (List Char)) :
    greatestColumn (lines.map (moveComment (greatestColumn lines))) = greatestColumn lines := by
  by_cases h : (commentColumns lines).Nonempty
  · have hmoved : IsGreatest (commentColumns (lines.map (moveComment (greatestColumn lines))))
          (greatestColumn lines) := by
      constructor
      · obtain ⟨line, hline, code, comment, hcut, -⟩ := (isGreatest_greatestColumn h).1
        have hpadded := padded_moveComment hline
        obtain ⟨code', comment', hcut'⟩ := exists_cut (hpadded.infix_iff.mpr hcut.isInfix)
        exact ⟨_, List.mem_map_of_mem hline, code', comment', hcut', hpadded.column_eq hcut'⟩
      · rintro column ⟨line', hline', code, comment, hcut, rfl⟩
        obtain ⟨line, hline, rfl⟩ := List.mem_map.mp hline'
        exact Nat.le_of_eq ((padded_moveComment hline).column_eq hcut)
    exact (isGreatest_greatestColumn ⟨_, hmoved.1⟩).unique hmoved
  · have hsame : ∀ line ∈ lines, moveComment (greatestColumn lines) line = line := by
      intro line hline
      refine moveComment_of_free (fun hfound => h ?_) _
      obtain ⟨code, comment, hcut⟩ := exists_cut hfound
      exact ⟨byteLength code, line, hline, code, comment, hcut, rfl⟩
    rw [List.map_congr_left hsame, List.map_id']

theorem alignComments_alignComments (lines : List (List Char)) :
    alignComments (alignComments lines) = alignComments lines := by
  cases lines with
  | nil => rfl
  | cons first rest =>
    rw [alignComments_cons, alignComments_cons, greatestColumn_moved, List.map_map]
    congr 1
    exact List.map_congr_left fun line hline => (padded_moveComment hline).moveComment

end BlockSynth.Chars

namespace BlockSynth.Text

open Chars

theorem alignComments_cons (first : String) (rest : List String) :
    alignComments (first :: rest) = first ::
      rest.map fun line =>
        String.ofList (moveComment (greatestColumn (rest.map String.toList)) line.toList) := by
  rw [alignComments, List.map_cons, Chars.alignComments_cons, List.map_cons, String.ofList_toList,
    List.map_map, List.map_map]
  rfl

theorem alignComments_alignComments (lines : List String) :
    alignComments (alignComments lines) = alignComments lines := by
  have htexts : (alignComments lines).map String.toList =
      Chars.alignComments (lines.map String.toList) := by
    rw [alignComments, List.map_map]
    simp
  rw [alignComments, htexts, Chars.alignComments_alignComments]
  rfl

/-- Aligning comments keeps the number of the lines and the first of them. The others keep what they
are if no comment begins in them, and otherwise get spaces in front of it, as many as it is short of
the greatest column, which none of them is behind. All of these comments then stand at that column,
and another pass has nothing to do. -/
theorem comments_are_aligned (lines : List String) :
    let aligned := alignComments lines
    aligned.length = lines.length ∧ aligned.head? = lines.head? ∧ alignComments aligned = aligned ∧
      ∃ column,
        ((commentColumns (lines.tail.map String.toList)).Nonempty →
          IsGreatest (commentColumns (lines.tail.map String.toList)) column) ∧
        List.Forall₂ (Padded column) (lines.tail.map String.toList)
          (aligned.tail.map String.toList) ∧
        ∀ line ∈ aligned.tail, ∀ code comment,
          Cut line.toList code comment → byteLength code = column := by
  intro aligned
  cases lines with
  | nil =>
    refine ⟨rfl, rfl, rfl, 0, fun hcolumns => ?_, .nil, List.forall_mem_nil _⟩
    obtain ⟨column, line, hline, -⟩ := hcolumns
    simp at hline
  | cons first rest =>
    let texts := rest.map String.toList
    have haligned : aligned.tail.map String.toList =
        texts.map (moveComment (greatestColumn texts)) := by
      rw [show aligned = _ from alignComments_cons first rest, List.tail_cons,
        List.map_map, List.map_map]
      simp [Function.comp_def, texts]
    refine ⟨?_, ?_, alignComments_alignComments _, greatestColumn texts,
      isGreatest_greatestColumn, ?_, ?_⟩
    · rw [show aligned = _ from alignComments_cons first rest, List.length_cons, List.length_map]
      rfl
    · rw [show aligned = _ from alignComments_cons first rest]
      rfl
    · rw [haligned, List.forall₂_map_right_iff]
      exact List.forall₂_same.mpr fun line => padded_moveComment
    · intro line hline code comment hcut
      have hmem : line.toList ∈ texts.map (moveComment (greatestColumn texts)) :=
        haligned ▸ List.mem_map_of_mem hline
      obtain ⟨text, htext, hmoved⟩ := List.mem_map.mp hmem
      rw [← hmoved] at hcut
      exact (padded_moveComment htext).column_eq hcut

/-- A comment behind a slash, a line without one, and two slashes of which the code
has the first ones. -/
example : alignComments ["call(  // head", "  a/ // one", "  long", "  é//argument, // two"] =
    ["call(  // head", "  a/ // one", "  long", "  é //argument, // two"] := by decide

end BlockSynth.Text
