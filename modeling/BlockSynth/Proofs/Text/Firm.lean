import BlockSynth.Proofs.Text.Lines

/-! # Firm text

Layout changes what stands between the words of a text: it puts marks in front of lines, takes
blanks off their ends and leaves out blank lines. Text on one line that does not end with a blank
comes out in one piece, and what comes out around it is the same for all such texts.
-/
namespace BlockSynth.Chars

/-- Text on one line that ends with a character that is not blank. -/
structure Firm (text : List Char) : Prop where
  line : '\n' ∉ text
  ends : ∃ front last, text = front ++ [last] ∧ isBlank last = false

theorem Firm.ne_nil {text : List Char} (h : Firm text) : text ≠ [] := by
  obtain ⟨front, last, rfl, -⟩ := h.ends
  simp

/-- A layout that neither breaks firm text between the two texts nor takes note of it. -/
def Spares (layout : List Char → List Char) (before after : List Char) : Prop :=
  ∃ front back, ∀ text, Firm text → layout (before ++ text ++ after) = front ++ text ++ back

/-! ### Indentation -/

theorem spares_prefixLines (mark before after : List Char) :
    Spares (prefixLines mark) before after := by
  induction before using line_induction with
  | last line hline =>
    by_cases hafter : '\n' ∈ after
    · obtain ⟨more, rest, rfl, hmore⟩ := List.eq_append_cons_of_mem hafter
      refine ⟨mark ++ line, more ++ '\n' :: prefixLines mark rest, fun text h => ?_⟩
      have hwhole : '\n' ∉ line ++ text ++ more := by simp [hline, h.line, hmore]
      rw [← List.append_assoc, prefixLines_line mark hwhole]
      simp
    · refine ⟨mark ++ line, after, fun text h => ?_⟩
      have hwhole : '\n' ∉ line ++ text ++ after := by simp [hline, h.line, hafter]
      rw [prefixLines_last mark hwhole, if_neg (by simp [h.ne_nil])]
      simp
  | more line rest hline ih =>
    obtain ⟨front, back, hrest⟩ := ih
    refine ⟨mark ++ (line ++ ['\n']) ++ front, back, fun text h => ?_⟩
    have hsplit : line ++ '\n' :: rest ++ text ++ after =
        line ++ '\n' :: (rest ++ text ++ after) := by simp
    rw [hsplit, prefixLines_line mark hline, hrest text h]
    simp

/-! ### Runs of newlines -/

theorem collapseAfter_append_cons (seen : Nat) (before : List Char)
    {c : Char} (hc : c ≠ '\n') (rest : List Char) :
    collapseAfter seen (before ++ c :: rest) =
      collapseAfter seen before ++ c :: collapseAfter 0 rest := by
  induction before generalizing seen with
  | nil => simp [collapseAfter, hc]
  | cons d before ih =>
    simp only [List.cons_append, collapseAfter, ih]
    split
    · split
      · rfl
      · rfl
    · rfl

theorem collapseAfter_append_line (seen : Nat)
    (before : List Char) {line : List Char} (h : '\n' ∉ line) :
    collapseAfter seen (before ++ line) = collapseAfter seen before ++ line := by
  induction line generalizing seen before with
  | nil => simp
  | cons c line ih =>
    simp only [List.mem_cons, not_or] at h
    rw [collapseAfter_append_cons seen before (Ne.symm h.1)]
    simpa [collapseAfter] using ih 0 [] h.2

theorem spares_collapseBlankLines (before after : List Char) :
    Spares collapseBlankLines before after := by
  refine ⟨collapseAfter 0 before, collapseAfter 0 after, fun text h => ?_⟩
  obtain ⟨front, last, rfl, -⟩ := h.ends
  have hline := h.line
  simp only [List.mem_append, List.mem_singleton, not_or] at hline
  have hassoc : before ++ (front ++ [last]) ++ after = before ++ front ++ last :: after := by simp
  rw [collapseBlankLines, hassoc, collapseAfter_append_cons 0 _ (Ne.symm hline.2),
    collapseAfter_append_line 0 before hline.1]
  simp

/-! ### The final form -/

theorem dropWhile_append_cons {α : Type} {drops : α → Bool}
    {x : α} (hx : drops x = false) (xs ys : List α) :
    (xs ++ x :: ys).dropWhile drops = xs.dropWhile drops ++ x :: ys := by
  rw [List.dropWhile_append]
  split
  · rename_i hnil
    simp [hx, List.isEmpty_iff.mp hnil]
  · rfl

theorem Firm.trimEnd_append {text : List Char} (h : Firm text) (before after : List Char) :
    trimEnd (before ++ text ++ after) = before ++ text ++ trimEnd after := by
  obtain ⟨front, last, rfl, hlast⟩ := h.ends
  have hreverse : (before ++ (front ++ [last]) ++ after).reverse =
      after.reverse ++ last :: (front.reverse ++ before.reverse) := by simp
  rw [trimEnd, hreverse, dropWhile_append_cons hlast]
  simp [trimEnd]

/-- The line of a firm text, among the right-trimmed lines. -/
theorem exists_trimmed_lines (before after : List Char) :
    ∃ lines first last rest, ∀ text, Firm text →
    (pieces (before ++ text ++ after)).map (fun piece => trimEnd (withoutBreak piece)) =
      lines ++ (first ++ text ++ last) :: rest := by
  induction before using line_induction with
  | last line hline =>
    by_cases hafter : '\n' ∈ after
    · obtain ⟨more, others, rfl, hmore⟩ := List.eq_append_cons_of_mem hafter
      refine ⟨[], line, trimEnd more, (pieces others).map fun piece => trimEnd (withoutBreak piece),
        fun text h => ?_⟩
      have hwhole : '\n' ∉ line ++ text ++ more := by simp [hline, h.line, hmore]
      rw [← List.append_assoc, pieces_line hwhole, List.map_cons,
        trimEnd_withoutBreak_line, h.trimEnd_append]
      rfl
    · refine ⟨[], line, trimEnd after, [], fun text h => ?_⟩
      have hwhole : '\n' ∉ line ++ text ++ after := by simp [hline, h.line, hafter]
      rw [pieces_last hwhole, if_neg (by simp [h.ne_nil]), List.map_singleton,
        withoutBreak_last hwhole, h.trimEnd_append]
      rfl
  | more line rest hline ih =>
    obtain ⟨lines, first, last, others, hrest⟩ := ih
    refine ⟨trimEnd line :: lines, first, last, others, fun text h => ?_⟩
    have hsplit : line ++ '\n' :: rest ++ text ++ after =
        line ++ '\n' :: (rest ++ text ++ after) := by simp
    rw [hsplit, pieces_line hline, List.map_cons, trimEnd_withoutBreak_line,
      hrest text h, List.cons_append]

theorem spares_tidy (before after : List Char) : Spares tidy before after := by
  obtain ⟨lines, first, last, rest, htrimmed⟩ := exists_trimmed_lines before after
  refine ⟨unlines (lines.dropWhile List.isEmpty) ++ first,
    last ++ '\n' :: unlines (rest.reverse.dropWhile List.isEmpty).reverse, fun text h => ?_⟩
  have hkept : (first ++ text ++ last).isEmpty = false := by simp [h.ne_nil]
  have hlines : tidyLines (before ++ text ++ after) = lines.dropWhile List.isEmpty ++
      (first ++ text ++ last) :: (rest.reverse.dropWhile List.isEmpty).reverse := by
    rw [tidyLines, htrimmed text h, dropWhile_append_cons hkept]
    have hreverse : (lines.dropWhile List.isEmpty ++ (first ++ text ++ last) :: rest).reverse =
        rest.reverse ++ (first ++ text ++ last) :: (lines.dropWhile List.isEmpty).reverse := by simp
    simp only [hreverse, dropWhile_append_cons hkept]
    simp
  rw [tidy_eq_unlines, hlines, unlines_append, unlines_cons]
  simp

end BlockSynth.Chars
