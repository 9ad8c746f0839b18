import BlockSynth.Proofs.Text.Whole
import Mathlib.Data.List.Basic

/-! # Indentation

Indenting works on a text line by line, so whole lines can be indented before or after other lines
are written behind them. A mark without a newline stays in its line. Hence indenting twice is
indenting once by both marks, and the marks can be taken off again.
-/
namespace BlockSynth.Chars

variable {mark unit text : List Char}

/-! ### Lines of an indented text -/

theorem flatten_pieces (text : List Char) : (pieces text).flatten = text := by
  induction text using line_induction with
  | last line h =>
    rw [pieces_last h]
    split
    · rename_i hline
      exact hline.symm
    · exact List.flatten_singleton
  | more line rest h ih =>
    rw [pieces_line h, List.flatten_cons, ih, List.append_assoc, List.singleton_append]

/-- A mark without a newline is part of the line that it stands in front of. -/
theorem pieces_prefixLines (hmark : '\n' ∉ mark) (text : List Char) :
    pieces (prefixLines mark text) = (pieces text).map (mark ++ ·) := by
  induction text using line_induction with
  | last line h =>
    have hmarked : '\n' ∉ mark ++ line := by simp [hmark, h]
    rw [prefixLines_last mark h, pieces_last h]
    by_cases hline : line = []
    · rw [if_pos hline, if_pos hline]
      rfl
    · have hne : mark ++ line ≠ [] := by simp [hline]
      rw [if_neg hline, if_neg hline, pieces_last hmarked, if_neg hne, List.map_singleton]
  | more line rest h ih =>
    have hmarked : '\n' ∉ mark ++ line := by simp [hmark, h]
    have hwhole : prefixLines mark (line ++ '\n' :: rest) =
        (mark ++ line) ++ '\n' :: prefixLines mark rest := by
      rw [prefixLines_line mark h]
      simp
    rw [hwhole, pieces_line hmarked, ih, pieces_line h, List.map_cons, List.append_assoc]

theorem Whole.pieces_append (h : Whole text) (more : List Char) :
    pieces (text ++ more) = pieces text ++ pieces more := by
  obtain ⟨lines, hlines, rfl⟩ := h.exists_lines
  clear h
  induction lines with
  | nil => rfl
  | cons line rest ih =>
    rw [Lines, List.forall_mem_cons] at hlines
    rw [unlines_cons, List.append_assoc, List.cons_append, pieces_line hlines.1,
      pieces_line hlines.1, ih hlines.2, List.cons_append]

/-! ### Laws of indenting -/

theorem prefixLines_nil (text : List Char) : prefixLines [] text = text :=
  List.flatMap_id.trans (flatten_pieces text)

theorem Whole.prefixLines_append (h : Whole text) (mark more : List Char) :
    Chars.prefixLines mark (text ++ more) =
      Chars.prefixLines mark text ++ Chars.prefixLines mark more := by
  rw [Chars.prefixLines, h.pieces_append, List.flatMap_append]
  rfl

theorem prefixLines_prefixLines (hmark : '\n' ∉ mark) (other text : List Char) :
    prefixLines other (prefixLines mark text) = prefixLines (other ++ mark) text := by
  rw [prefixLines, pieces_prefixLines hmark, List.flatMap_map, prefixLines]
  simp only [List.append_assoc]

theorem getLast?_prefixLines (mark text : List Char) :
    (prefixLines mark text).getLast? = text.getLast? := by
  induction text using line_induction with
  | last line h =>
    rw [prefixLines_last mark h]
    by_cases hline : line = []
    · rw [if_pos hline, hline]
    · have hlast : line.getLast? = some (line.getLast hline) := List.getLast?_eq_some_getLast hline
      rw [if_neg hline, List.getLast?_append, hlast, Option.some_or]
  | more line rest h ih =>
    have hends : ∀ front more : List Char,
        (front ++ '\n' :: more).getLast? = more.getLast?.or (some '\n') := by
      intro front more
      rw [List.append_cons, List.getLast?_append, List.getLast?_concat]
    have hwhole : prefixLines mark (line ++ '\n' :: rest) =
        (mark ++ line) ++ '\n' :: prefixLines mark rest := by
      rw [prefixLines_line mark h]
      simp
    rw [hwhole, hends, hends, ih]

/-- The text without the mark in front of its lines, if each of them has it. -/
def unprefixLines (mark text : List Char) : Option (List Char) :=
  ((pieces text).mapM (List.dropPrefix? · mark)).map List.flatten

theorem mapM_dropPrefix? (mark : List Char) (lines : List (List Char)) :
    (lines.map (mark ++ ·)).mapM (List.dropPrefix? · mark) = some lines := by
  induction lines with
  | nil => rfl
  | cons line rest ih =>
    have hline : (mark ++ line).dropPrefix? mark = some line :=
      List.dropPrefix?_eq_some_iff.mpr ⟨mark, rfl, BEq.rfl⟩
    rw [List.map_cons, List.mapM_cons, hline, ih]
    rfl

theorem unprefixLines_prefixLines (hmark : '\n' ∉ mark) (text : List Char) :
    unprefixLines mark (prefixLines mark text) = some text := by
  rw [unprefixLines, pieces_prefixLines hmark, mapM_dropPrefix?, Option.map_some, flatten_pieces]

/-- A line that begins with the mark gets it once more, and a blank one gets nothing else. -/
example : prefixLines "- ".toList "- a\n\nb".toList = "- - a\n- \n- b".toList := by decide

/-! ### Hanging lines -/

/-- The mark in front of every line but the first one. -/
def hangLines (mark text : List Char) : List Char :=
  (prefixLines mark text).drop mark.length

theorem hangLines_last (mark : List Char) {line : List Char} (h : '\n' ∉ line) :
    hangLines mark line = line := by
  rw [hangLines, prefixLines_last mark h]
  split
  · rename_i hline
    rw [hline, List.drop_nil]
  · exact List.drop_left

theorem hangLines_line (mark : List Char) {line : List Char} (h : '\n' ∉ line) (rest : List Char) :
    hangLines mark (line ++ '\n' :: rest) = line ++ '\n' :: prefixLines mark rest := by
  rw [hangLines, prefixLines_line mark h, List.append_assoc, List.append_assoc, List.drop_left,
    List.singleton_append]

theorem prefixLines_eq_hangLines (mark : List Char) (h : text ≠ []) :
    prefixLines mark text = mark ++ hangLines mark text := by
  cases text with
  | nil => exact absurd rfl h
  | cons c rest =>
    obtain ⟨behind, hbehind⟩ := exists_prefixLines_cons mark c rest
    rw [hangLines, hbehind, List.drop_left]

/-- Behind a line that is not ended, the text goes on in that line. -/
theorem prefixLines_append_of_not_whole (mark : List Char) (h : ¬Whole text) (more : List Char) :
    prefixLines mark (text ++ more) = prefixLines mark text ++ hangLines mark more := by
  induction text using line_induction with
  | last line hline =>
    have hne : line ≠ [] := fun hnil => h (.inl hnil)
    induction more using line_induction with
    | last last hlast =>
      have hboth : '\n' ∉ line ++ last := by simp [hline, hlast]
      rw [prefixLines_last mark hboth, prefixLines_last mark hline, hangLines_last mark hlast,
        if_neg hne, if_neg (List.append_ne_nil_of_left_ne_nil hne last), List.append_assoc]
    | more last rest hlast _ =>
      have hboth : '\n' ∉ line ++ last := by simp [hline, hlast]
      rw [← List.append_assoc, prefixLines_line mark hboth, prefixLines_last mark hline,
        hangLines_line mark hlast, if_neg hne]
      simp
  | more line rest hline ih =>
    have hrest : ¬Whole rest := by
      intro hwhole
      have hended := (whole_newline line).append hwhole
      rw [List.append_assoc, List.singleton_append] at hended
      exact h hended
    rw [List.append_assoc, List.cons_append, prefixLines_line mark hline,
      prefixLines_line mark hline, ih hrest]
    simp

theorem hangLines_isSuffix (mark text more : List Char) :
    hangLines mark more <:+ prefixLines mark (text ++ more) := by
  by_cases h : Whole text
  · rw [h.prefixLines_append]
    exact (List.drop_suffix _ _).trans (List.suffix_append _ _)
  · rw [prefixLines_append_of_not_whole mark h]
    exact List.suffix_append _ _

theorem hangLines_isPrefix (mark text more : List Char) :
    hangLines mark text <+: hangLines mark (text ++ more) := by
  by_cases hne : text = []
  · rw [hne, hangLines_last mark List.not_mem_nil]
    exact List.nil_prefix
  · have hlines : prefixLines mark text <+: prefixLines mark (text ++ more) := by
      by_cases h : Whole text
      · rw [h.prefixLines_append]
        exact List.prefix_append _ _
      · rw [prefixLines_append_of_not_whole mark h]
        exact List.prefix_append _ _
    rw [prefixLines_eq_hangLines mark hne,
      prefixLines_eq_hangLines mark (List.append_ne_nil_of_left_ne_nil hne more)] at hlines
    exact (List.prefix_append_right_inj mark).mp hlines

theorem hangLines_hangLines (hmark : '\n' ∉ mark) (other text : List Char) :
    hangLines other (hangLines mark text) = hangLines (other ++ mark) text := by
  induction text using line_induction with
  | last line h => rw [hangLines_last mark h, hangLines_last other h, hangLines_last _ h]
  | more line rest h _ =>
    rw [hangLines_line mark h, hangLines_line other h, hangLines_line _ h,
      prefixLines_prefixLines hmark]

/-! ### Nested fragments -/

/-- So many units of indentation. -/
def units (depth : Nat) (unit : List Char) : List Char :=
  (List.replicate depth unit).flatten

theorem units_zero (unit : List Char) : units 0 unit = [] := rfl

theorem units_succ (depth : Nat) (unit : List Char) :
    units (depth + 1) unit = unit ++ units depth unit := by
  rw [units, units, List.replicate_succ, List.flatten_cons]

theorem newline_not_mem_units (hunit : '\n' ∉ unit) (depth : Nat) : '\n' ∉ units depth unit := by
  intro hmem
  obtain ⟨copy, hcopy, hnewline⟩ := List.mem_flatten.mp hmem
  exact hunit (List.eq_of_mem_replicate hcopy ▸ hnewline)

/-- The lines of a fragment are lines of the text, indented by so many units. -/
def Indented (unit : List Char) (depth : Nat) (fragment text : List Char) : Prop :=
  ∃ before behind, Whole before ∧ text = before ++ prefixLines (units depth unit) fragment ++ behind

variable {depth : Nat} {fragment : List Char}

theorem indented_zero (unit fragment : List Char) : Indented unit 0 fragment fragment :=
  ⟨[], [], whole_nil, by rw [units_zero, prefixLines_nil, List.nil_append, List.append_nil]⟩

theorem Indented.around (h : Indented unit depth fragment text)
    {lead : List Char} (hlead : Whole lead) (tail : List Char) :
    Indented unit depth fragment (lead ++ text ++ tail) := by
  obtain ⟨before, behind, hbefore, rfl⟩ := h
  exact ⟨lead ++ before, behind ++ tail, hlead.append hbefore, by simp⟩

/-- Text that is indented takes the whole lines in it along. -/
theorem Indented.indent (h : Indented unit depth fragment text)
    (hunit : '\n' ∉ unit) (hfragment : Whole fragment) :
    Indented unit (depth + 1) fragment (prefixLines unit text) := by
  obtain ⟨before, behind, hbefore, rfl⟩ := h
  have hinside := hfragment.prefixLines (units depth unit)
  refine ⟨prefixLines unit before, prefixLines unit behind, hbefore.prefixLines unit, ?_⟩
  rw [(hbefore.append hinside).prefixLines_append, hbefore.prefixLines_append,
    prefixLines_prefixLines (newline_not_mem_units hunit depth), units_succ]

/-- Also where a fragment begins in the middle of a line its other lines are indented once more. -/
theorem hangLines_isInfix (h : hangLines (units depth unit) fragment <:+: text)
    (hunit : '\n' ∉ unit) :
    hangLines (units (depth + 1) unit) fragment <:+: prefixLines unit text := by
  obtain ⟨before, behind, rfl⟩ := h
  rw [units_succ, ← hangLines_hangLines (newline_not_mem_units hunit depth), List.append_assoc]
  exact (hangLines_isPrefix unit _ behind).isInfix.trans (hangLines_isSuffix unit before _).isInfix

/-- A fragment stands in the text, and all of its lines but the first are indented by so many units.
So is the first one where lines are ended before others begin. -/
def Inset (ended : Prop) (unit : List Char) (depth : Nat) (fragment text : List Char) : Prop :=
  hangLines (units depth unit) fragment <:+: text ∧ (ended → Indented unit depth fragment text)

variable {ended : Prop}

theorem inset_zero (ended : Prop) (unit fragment : List Char) :
    Inset ended unit 0 fragment fragment := by
  refine ⟨?_, fun _ => indented_zero unit fragment⟩
  rw [hangLines, units_zero, prefixLines_nil]
  exact List.infix_rfl

theorem Inset.around (h : Inset ended unit depth fragment text)
    {lead : List Char} (hlead : ended → Whole lead) (tail : List Char) :
    Inset ended unit depth fragment (lead ++ text ++ tail) :=
  ⟨h.1.trans (List.infix_append lead text tail), fun hended =>
    (h.2 hended).around (hlead hended) tail⟩

theorem Inset.indent (h : Inset ended unit depth fragment text)
    (hunit : '\n' ∉ unit) (hfragment : ended → Whole fragment) :
    Inset ended unit (depth + 1) fragment (prefixLines unit text) :=
  ⟨hangLines_isInfix h.1 hunit, fun hended => (h.2 hended).indent hunit (hfragment hended)⟩

end BlockSynth.Chars
