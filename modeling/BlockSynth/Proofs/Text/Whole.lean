import BlockSynth.Proofs.Text.Remark
import BlockSynth.Text.Replace

/-! # Texts of whole lines

A text of whole lines is empty or ends its last line, so what is written behind it
begins a line of its own. Indenting such a text, replacing a pattern in it and
bringing it into its final form never opens its last line.
-/
namespace BlockSynth.Chars

/-- There is no text, or it ends its last line. -/
def Whole (text : List Char) : Prop :=
  text = [] ∨ ∃ front, text = front ++ ['\n']

variable {text more : List Char}

theorem whole_nil : Whole [] := .inl rfl

theorem whole_newline (front : List Char) : Whole (front ++ ['\n']) := .inr ⟨front, rfl⟩

theorem Whole.append (h : Whole text) (hmore : Whole more) : Whole (text ++ more) := by
  rcases hmore with rfl | ⟨front, rfl⟩
  · rwa [List.append_nil]
  · rw [← List.append_assoc]
    exact whole_newline _

theorem whole_unlines (lines : List (List Char)) : Whole (unlines lines) := by
  induction lines with
  | nil => exact whole_nil
  | cons line rest ih =>
    have hline := (whole_newline line).append ih
    rwa [List.append_assoc, List.singleton_append, ← unlines_cons] at hline

theorem Whole.rest {line rest : List Char} (h : Whole (line ++ '\n' :: rest)) : Whole rest := by
  rcases h with hnil | ⟨front, hfront⟩
  · simp at hnil
  · rcases List.eq_nil_or_concat rest with rfl | ⟨init, last, rfl⟩
    · exact whole_nil
    · have hends : (line ++ '\n' :: init) ++ [last] = front ++ ['\n'] := by simpa using hfront
      obtain ⟨-, hlast⟩ := List.append_inj' hends rfl
      rw [List.concat_eq_append, hlast]
      exact whole_newline init

theorem Whole.exists_lines (h : Whole text) : ∃ lines, Lines lines ∧ text = unlines lines := by
  induction text using line_induction with
  | last line hline =>
    rcases h with rfl | ⟨front, rfl⟩
    · exact ⟨[], List.forall_mem_nil _, rfl⟩
    · simp at hline
  | more line rest hline ih =>
    obtain ⟨lines, hlines, rfl⟩ := ih h.rest
    exact ⟨line :: lines, List.forall_mem_cons.mpr ⟨hline, hlines⟩, (unlines_cons _ _).symm⟩

/-! ### What is done to texts -/

theorem Whole.prefixLines (h : Whole text) (mark : List Char) : Whole (prefixLines mark text) := by
  obtain ⟨lines, hlines, rfl⟩ := h.exists_lines
  rw [prefixLines_unlines mark hlines]
  exact whole_unlines _

/-- A pattern without a newline leaves the newline at the end of a text where it is. -/
theorem exists_replaceAfter_newline {pattern : List Char} (hne : pattern ≠ [])
    (hline : '\n' ∉ pattern) (new front : List Char) {skip : Nat} (hskip : skip ≤ front.length) :
    ∃ start, replaceAfter pattern new skip (front ++ ['\n']) = start ++ ['\n'] := by
  induction front generalizing skip with
  | nil =>
    obtain rfl : skip = 0 := Nat.le_zero.mp hskip
    have hstart : ¬pattern.isPrefixOf ['\n'] = true := by
      intro hprefix
      rcases List.prefix_cons_iff.mp (List.isPrefixOf_iff_prefix.mp hprefix)
        with rfl | ⟨rest, rfl, -⟩
      · exact hne rfl
      · exact hline List.mem_cons_self
    exact ⟨[], by simp [replaceAfter, hstart]⟩
  | cons c rest ih =>
    cases skip with
    | succ skip => exact ih (Nat.le_of_succ_le_succ hskip)
    | zero =>
      rw [List.cons_append, replaceAfter]
      split
      · rename_i hprefix
        rw [← List.cons_append] at hprefix
        have hlength : pattern.length ≤ (c :: rest).length := by
          rcases List.prefix_concat_iff.mp (List.isPrefixOf_iff_prefix.mp hprefix)
            with rfl | hinside
          · exact absurd (List.mem_append_right _ List.mem_cons_self) hline
          · exact hinside.length_le
        rw [List.length_cons] at hlength
        have hrest : pattern.length - 1 ≤ rest.length := by omega
        obtain ⟨start, hstart⟩ := ih hrest
        exact ⟨new ++ start, by rw [hstart, List.append_assoc]⟩
      · obtain ⟨start, hstart⟩ := ih (Nat.zero_le _)
        exact ⟨c :: start, by rw [hstart, List.cons_append]⟩

theorem Whole.replace (h : Whole text) {pattern : List Char} (hne : pattern ≠ [])
    (hline : '\n' ∉ pattern) (new : List Char) : Whole (replace pattern new text) := by
  rcases h with rfl | ⟨front, rfl⟩
  · cases pattern with
    | nil => exact absurd rfl hne
    | cons c rest => exact whole_nil
  · exact .inr (exists_replaceAfter_newline hne hline new front (Nat.zero_le _))

/-- The final form of a line, whole lines and one more line, behind whole lines: both
lines are still there. -/
theorem Whole.tidy_block (h : Whole text) (hmore : Whole more)
    {head last : List Char} (hhead : '\n' ∉ head) (hlast : '\n' ∉ last)
    (hopen : isSolid head = true) (hsolid : isSolid last = true) :
    ∃ front body, Whole front ∧ Whole body ∧ tidy (text ++ (head ++ '\n' :: more) ++ last) =
      front ++ (trimEnd head ++ '\n' :: body) ++ (trimEnd last ++ ['\n']) := by
  obtain ⟨before, hbefore, rfl⟩ := h.exists_lines
  obtain ⟨inside, hinside, rfl⟩ := hmore.exists_lines
  have hlines : Lines (before ++ head :: inside) :=
    List.forall_mem_append.mpr ⟨hbefore, List.forall_mem_cons.mpr ⟨hhead, hinside⟩⟩
  have hkept : ∀ {line : List Char}, isSolid line = true → (trimEnd line).isEmpty = false := by
    intro line hline
    rw [List.isEmpty_eq_false_iff, Ne, trimEnd_eq_nil_iff, hline]
    exact Bool.true_eq_false.mp
  -- Only lines before `head` are dropped, since it is not blank.
  have htidy : tidyLines (unlines (before ++ head :: inside) ++ last) =
      (before.map trimEnd).dropWhile List.isEmpty ++ trimEnd head :: inside.map
        trimEnd ++ [trimEnd last] := by
    unfold tidyLines
    rw [pieces_unlines_append hlines hlast (ne_nil_of_isSolid hsolid)]
    simp only [List.map_append, List.map_map, Function.comp_def, trimEnd_withoutBreak_line,
      List.map_cons, List.map_nil, withoutBreak_last hlast, List.append_assoc, List.cons_append]
    rw [List.dropWhile_append]
    split
    · rename_i hnil
      simp [List.isEmpty_iff.mp hnil, hkept hopen, hkept hsolid]
    · simp [hkept hsolid]
  refine ⟨unlines ((before.map trimEnd).dropWhile List.isEmpty), unlines (inside.map trimEnd),
    whole_unlines _, whole_unlines _, ?_⟩
  rw [← unlines_cons, ← unlines_append, tidy_eq_unlines, htidy, unlines_append, unlines_append,
    unlines_cons, unlines_cons, unlines_nil]

end BlockSynth.Chars
