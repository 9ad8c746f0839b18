import BlockSynth.Proofs.Graph.Node
import BlockSynth.Proofs.Text.Whole
import Mathlib.Data.String.Basic

/-! # Comments of a node

The comments before the code of a node are what is said on it and in its value slots,
line by line behind the mark of a comment. What is said in its statement slots and
behind it in its chain is left to the nodes there.
-/
namespace BlockSynth

/-! ### Marked lines -/

namespace Chars

variable {mark marked plain more rest : List Char}

/-- The lines of the one text are those of the other one behind the mark. -/
def Marks (mark marked plain : List Char) : Prop :=
  ∃ lines, Lines lines ∧ marked = unlines (lines.map (mark ++ ·)) ∧ plain = unlines lines

/-- A text whose lines have lost a mark. -/
def unmark (mark text : List Char) : List Char :=
  (pieces text).flatMap (·.drop mark.length)

theorem marks_nil (mark : List Char) : Marks mark [] [] :=
  ⟨[], List.forall_mem_nil _, rfl, rfl⟩

theorem Marks.append (h : Marks mark marked plain) (hmore : Marks mark more rest) :
    Marks mark (marked ++ more) (plain ++ rest) := by
  obtain ⟨lines, hlines, rfl, rfl⟩ := h
  obtain ⟨others, hothers, rfl, rfl⟩ := hmore
  refine ⟨lines ++ others, List.forall_mem_append.mpr ⟨hlines, hothers⟩, ?_,
    (unlines_append _ _).symm⟩
  rw [List.map_append, unlines_append]

theorem marks_prefixLines (mark : List Char) {text : List Char} (h : Whole text) :
    Marks mark (prefixLines mark text) text := by
  obtain ⟨lines, hlines, rfl⟩ := h.exists_lines
  exact ⟨lines, hlines, prefixLines_unlines mark hlines, rfl⟩

theorem Marks.pieces_eq (hmark : '\n' ∉ mark) (h : Marks mark marked plain) :
    ∃ lines, Lines lines ∧ pieces marked = lines.map (mark ++ · ++ ['\n']) ∧
      plain = unlines lines := by
  obtain ⟨lines, hlines, rfl, rfl⟩ := h
  refine ⟨lines, hlines, ?_, rfl⟩
  have hmarked : Lines (lines.map (mark ++ ·)) := by
    intro line hline
    obtain ⟨tail, htail, rfl⟩ := List.mem_map.mp hline
    exact List.not_mem_append hmark (hlines tail htail)
  rw [pieces_unlines hmarked, List.map_map]
  rfl

/-- Every line ends and begins with the mark. -/
theorem Marks.piece (hmark : '\n' ∉ mark) (h : Marks mark marked plain) {piece : List Char}
    (hpiece : piece ∈ pieces marked) : ∃ line, '\n' ∉ line ∧ piece = mark ++ line ++ ['\n'] := by
  obtain ⟨lines, hlines, hpieces, -⟩ := h.pieces_eq hmark
  rw [hpieces] at hpiece
  obtain ⟨line, hline, rfl⟩ := List.mem_map.mp hpiece
  exact ⟨line, hlines line hline, rfl⟩

theorem Marks.unmark_eq (hmark : '\n' ∉ mark) (h : Marks mark marked plain) :
    unmark mark marked = plain := by
  obtain ⟨lines, -, hpieces, rfl⟩ := h.pieces_eq hmark
  rw [unmark, hpieces, List.flatMap_map, unlines]
  simp

end Chars

/-! ### What is said -/

namespace Keyed

variable {α : Type} {entries : List (String × α)}

/-- The names of the entries ascend. -/
def InOrder (entries : List (String × α)) : Prop :=
  entries.Pairwise (·.1 < ·.1)

theorem InOrder.nodup (h : InOrder entries) : (entries.map Prod.fst).Nodup :=
  List.pairwise_map.mpr (h.imp fun hlt => hlt.ne)

theorem isSome_lookup_iff (h : InOrder entries) (name : String) :
    (entries.lookup name).isSome ↔ name ∈ entries.map Prod.fst := by
  rw [Option.isSome_iff_exists, List.mem_map]
  constructor
  · rintro ⟨value, hvalue⟩
    exact ⟨(name, value), mem_of_lookup hvalue, rfl⟩
  · rintro ⟨entry, hentry, rfl⟩
    exact ⟨entry.2, lookup_of_mem h.nodup hentry⟩

theorem inOrder_insert (h : InOrder entries) (name : String) (value : α) :
    InOrder (insert name value entries) := by
  -- The names of what is inserted into are those of before and the new one.
  have hnames : ∀ {entries : List (String × α)}, ∀ entry ∈ insert name value entries,
      entry.1 = name ∨ entry ∈ entries := by
    intro entries
    induction entries with
    | nil => simp [insert]
    | cons first rest ih =>
      intro entry hentry
      unfold insert at hentry
      split at hentry
      · rcases List.mem_cons.mp hentry with rfl | hmem
        · exact .inl rfl
        · exact .inr hmem
      · split at hentry
        · rcases List.mem_cons.mp hentry with rfl | hmem
          · exact .inl rfl
          · exact .inr (List.mem_cons_of_mem _ hmem)
        · rcases List.mem_cons.mp hentry with rfl | hmem
          · exact .inr List.mem_cons_self
          · exact (ih entry hmem).imp_right (List.mem_cons_of_mem _)
  induction entries with
  | nil => exact List.pairwise_singleton _ _
  | cons first rest ih =>
    obtain ⟨hfirst, hrest⟩ := List.pairwise_cons.mp h
    unfold insert
    split
    · rename_i hlt
      refine List.pairwise_cons.mpr ⟨?_, h⟩
      exact List.forall_mem_cons.mpr ⟨hlt, fun entry hentry => hlt.trans (hfirst entry hentry)⟩
    · split
      · rename_i heq
        exact List.pairwise_cons.mpr ⟨fun entry hentry => heq ▸ hfirst entry hentry, hrest⟩
      · rename_i hle hne
        refine List.pairwise_cons.mpr ⟨fun entry hentry => ?_, ih hrest⟩
        rcases hnames entry hentry with hname | hmem
        · rw [hname]
          exact lt_of_le_of_ne (not_lt.mp hle) (Ne.symm hne)
        · exact hfirst entry hmem

end Keyed

namespace Node

/-- The comments on a node and in the given value slots, those of a node before those below it. -/
def said (node : Node) (slots : List String) : List String :=
  node.remark.toList ++ slots.flatMap fun slot =>
    (node.input slot).toList.flatMap fun inner => inner.nodes.filterMap remark

theorem nodes_eq_children (node : Node) : node.nodes = node :: node.children.flatMap nodes := by
  have hslots : ∀ slots : List (String × Node),
      slotNodes slots = (slots.map Prod.snd).flatMap nodes := by
    intro slots
    induction slots with
    | nil => rfl
    | cons entry rest ih => rw [slotNodes, ih, List.map_cons, List.flatMap_cons]
  have hchain : ∀ next : Option Node, chainNodes next = next.toList.flatMap nodes := by
    intro next
    cases next <;> simp [chainNodes]
  rw [nodes_eq, descendants, hslots, hslots, hchain, children, List.flatMap_append,
    List.flatMap_append]

theorem said_names {node : Node} (h : Keyed.InOrder node.inputs) :
    node.said (node.inputs.map Prod.fst) =
      node.remark.toList ++ node.inputs.flatMap fun entry => entry.2.nodes.filterMap remark := by
  unfold said
  rw [List.flatMap_map]
  refine congrArg _ (List.flatMap_congr fun entry hentry => ?_)
  rw [input, Keyed.lookup_of_mem h.nodup hentry]
  simp

end Node

/-! ### Comments -/

open Chars

/-- Remarks, each with a newline behind it. -/
def remarkLines (remarks : List String) : List Char :=
  remarks.flatMap fun remark => remark.toList ++ ['\n']

theorem whole_remarkLines (remarks : List String) : Whole (remarkLines remarks) := by
  induction remarks with
  | nil => exact whole_nil
  | cons remark rest ih => exact (whole_newline remark.toList).append ih

theorem marks_lines (mark : String) (remarks : List String) :
    Marks mark.toList (Text.prefixLines mark (String.join (remarks.map (· ++ "\n")))).toList
      (remarkLines remarks) := by
  have htext : (String.join (remarks.map (· ++ "\n"))).toList = remarkLines remarks := by
    rw [String.toList_join, List.flatMap_map]
    simp [remarkLines]
  rw [Text.prefixLines, String.toList_ofList, htext]
  exact marks_prefixLines mark.toList (whole_remarkLines remarks)

theorem marks_comments (mark : String) (node : Node) :
    Marks mark.toList (node.comments mark).toList
      (remarkLines (node.remark.toList ++ node.inputs.flatMap fun entry =>
        entry.2.nodes.filterMap Node.remark)) := by
  have hslots : ∀ slots : List (String × Node), Marks mark.toList
      (String.join (slots.map fun slot => Text.prefixLines mark
        (String.join ((slot.2.nodes.filterMap Node.remark).map (· ++ "\n"))))).toList
      (remarkLines (slots.flatMap fun entry => entry.2.nodes.filterMap Node.remark)) := by
    intro slots
    induction slots with
    | nil => exact marks_nil mark.toList
    | cons entry rest ih =>
      have hmarks := (marks_lines mark (entry.2.nodes.filterMap Node.remark)).append ih
      simpa [remarkLines, String.toList_join] using hmarks
  have hmarks := (marks_lines mark node.remark.toList).append (hslots node.inputs)
  simpa [Node.comments, remarkLines] using hmarks

/-- The comments of a node are lines behind the mark, and without it they are the comments on the
node and on all nodes in its value slots, in the order of the slots and from above to below. -/
theorem comments_are_marked_remarks {mark : String} (hmark : '\n' ∉ mark.toList)
    {node : Node} (hinputs : Keyed.InOrder node.inputs) :
    ∃ slots : List String,
      slots.Pairwise (· < ·) ∧ (∀ slot, slot ∈ slots ↔ (node.input slot).isSome) ∧
      (∀ piece ∈ pieces (node.comments mark).toList,
        ∃ line, '\n' ∉ line ∧ piece = mark.toList ++ line ++ ['\n']) ∧
      unmark mark.toList (node.comments mark).toList = remarkLines (node.said slots) ∧
      (∀ inner : Node, inner.nodes = inner :: inner.children.flatMap Node.nodes) ∧
      ∀ statements next, { node with statements, next }.comments mark = node.comments mark := by
  have hmarks := marks_comments mark node
  refine ⟨node.inputs.map Prod.fst, List.pairwise_map.mpr hinputs,
    fun slot => (Keyed.isSome_lookup_iff hinputs slot).symm,
    fun piece hpiece => hmarks.piece hmark hpiece, ?_, Node.nodes_eq_children, fun _ _ => rfl⟩
  rw [Node.said_names hinputs]
  exact hmarks.unmark_eq hmark

/-- Comments of several lines, in slots that come in another order than their names,
and where they are left to the nodes there. -/
def annotated : Node :=
  let greeting : Node :=
    { comment := some "greeting", statements := [("DO", { comment := some "" })],
      next := some { comment := some "more\n" } }
  { comment := some "says\n\nhello", statements := [("DO", { comment := some "body" })],
    next := some { comment := some "behind" },
    inputs := Keyed.insert "AT" { comment := some "first" } (Keyed.insert "TEXT" greeting []) }

theorem annotated_has_marked_remarks : '\n' ∉ "// ".toList ∧ Keyed.InOrder annotated.inputs ∧
    ∃ slots : List String,
      slots.Pairwise (· < ·) ∧ (∀ slot, slot ∈ slots ↔ (annotated.input slot).isSome) ∧
      unmark "// ".toList (annotated.comments "// ").toList =
        remarkLines (annotated.said slots) := by
  have hmark : '\n' ∉ "// ".toList := by decide
  have hinputs : Keyed.InOrder annotated.inputs := by
    simp only [annotated]
    exact Keyed.inOrder_insert (Keyed.inOrder_insert List.Pairwise.nil "TEXT" _) "AT" _
  obtain ⟨slots, hascend, hslots, -, hsaid, -⟩ := comments_are_marked_remarks hmark hinputs
  exact ⟨hmark, hinputs, slots, hascend, hslots, hsaid⟩

example : annotated.comments "// " =
    "// says\n// \n// hello\n// first\n// greeting\n// more\n// \n" := by decide +kernel

end BlockSynth
