import BlockSynth.Text.Lines
import Mathlib.Data.List.TakeWhile

/-! # Lines

A text is a last line without a newline, or a line, a newline and a text. The functions that work
line by line are computed along this decomposition.
-/
namespace BlockSynth.Chars

/-- Induction on the lines of a text. -/
@[elab_as_elim]
theorem line_induction {motive : List Char → Prop} (last : ∀ line, '\n' ∉ line → motive line)
    (more : ∀ line rest, '\n' ∉ line → motive rest → motive (line ++ '\n' :: rest))
    (text : List Char) : motive text := by
  induction h : text.length using Nat.strongRecOn generalizing text with
  | ind n ih =>
    by_cases hmem : '\n' ∈ text
    · obtain ⟨line, rest, rfl, hline⟩ := List.eq_append_cons_of_mem hmem
      refine more line rest hline (ih rest.length ?_ rest rfl)
      rw [← h, List.length_append, List.length_cons]
      omega
    · exact last text hmem

theorem pieces_line {line : List Char} (h : '\n' ∉ line) (rest : List Char) :
    pieces (line ++ '\n' :: rest) = (line ++ ['\n']) :: pieces rest := by
  induction line with
  | nil => simp [pieces]
  | cons c line ih =>
    simp only [List.mem_cons, not_or] at h
    simp [pieces, Ne.symm h.1, ih h.2]

theorem pieces_last {line : List Char} (h : '\n' ∉ line) :
    pieces line = if line = [] then [] else [line] := by
  induction line with
  | nil => rfl
  | cons c line ih =>
    simp only [List.mem_cons, not_or] at h
    by_cases hline : line = []
    · simp [pieces, Ne.symm h.1, hline]
    · simp [pieces, Ne.symm h.1, ih h.2, hline]

theorem splitLines_line {line : List Char} (h : '\n' ∉ line) (rest : List Char) :
    splitLines (line ++ '\n' :: rest) = line :: splitLines rest := by
  induction line with
  | nil => simp [splitLines]
  | cons c line ih =>
    simp only [List.mem_cons, not_or] at h
    simp [splitLines, Ne.symm h.1, ih h.2]

theorem splitLines_last {line : List Char} (h : '\n' ∉ line) : splitLines line = [line] := by
  induction line with
  | nil => rfl
  | cons c line ih =>
    simp only [List.mem_cons, not_or] at h
    simp [splitLines, Ne.symm h.1, ih h.2]

theorem splitLines_ne_nil (text : List Char) : splitLines text ≠ [] := by
  induction text using line_induction with
  | last line h => simp [splitLines_last h]
  | more line rest h _ => simp [splitLines_line h]

theorem joinLines_cons (line : List Char) {more : List (List Char)} (h : more ≠ []) :
    joinLines (line :: more) = line ++ '\n' :: joinLines more := by
  obtain ⟨next, rest, rfl⟩ := List.exists_cons_of_ne_nil h
  rfl

theorem joinLines_splitLines (text : List Char) : joinLines (splitLines text) = text := by
  induction text using line_induction with
  | last line h => rw [splitLines_last h]; rfl
  | more line rest h ih => rw [splitLines_line h, joinLines_cons _ (splitLines_ne_nil rest), ih]

theorem splitLines_joinLines {lines : List (List Char)}
    (hne : lines ≠ []) (h : ∀ line ∈ lines, '\n' ∉ line) :
    splitLines (joinLines lines) = lines := by
  induction lines with
  | nil => exact absurd rfl hne
  | cons line rest ih =>
    rw [List.forall_mem_cons] at h
    by_cases hrest : rest = []
    · subst hrest
      exact splitLines_last h.1
    · rw [joinLines_cons line hrest, splitLines_line h.1, ih hrest h.2]

theorem prefixLines_line (mark : List Char)
    {line : List Char} (h : '\n' ∉ line) (rest : List Char) :
    prefixLines mark (line ++ '\n' :: rest) =
      mark ++ (line ++ ['\n']) ++ prefixLines mark rest := by
  simp [prefixLines, pieces_line h]

theorem exists_prefixLines_cons (mark : List Char) (c : Char) (rest : List Char) :
    ∃ tail, prefixLines mark (c :: rest) = mark ++ c :: tail := by
  simp only [prefixLines, pieces]
  split
  · rename_i hc
    exact ⟨(pieces rest).flatMap (mark ++ ·), by simp [hc]⟩
  · split
    · exact ⟨[], by simp⟩
    · rename_i piece more _
      exact ⟨piece ++ more.flatMap (mark ++ ·), by simp⟩

theorem prefixLines_last (mark : List Char) {line : List Char} (h : '\n' ∉ line) :
    prefixLines mark line = if line = [] then [] else mark ++ line := by
  by_cases hline : line = []
  · subst hline
    rfl
  · simp [prefixLines, pieces_last h, hline]

theorem collapseAfter_line_append {line : List Char} (h : '\n' ∉ line) (rest : List Char) :
    collapseAfter 0 (line ++ rest) = line ++ collapseAfter 0 rest := by
  induction line with
  | nil => rfl
  | cons c line ih =>
    simp only [List.mem_cons, not_or] at h
    rw [List.cons_append, collapseAfter, if_neg (Ne.symm h.1), ih h.2, List.cons_append]

/-! ### Right-trimmed lines -/

/-- The lines of a list, each with its newline. -/
def unlines (lines : List (List Char)) : List Char :=
  lines.flatMap (· ++ ['\n'])

@[simp] theorem unlines_nil : unlines [] = [] := rfl

@[simp] theorem unlines_cons (line : List Char) (rest : List (List Char)) :
    unlines (line :: rest) = line ++ '\n' :: unlines rest := by
  simp [unlines]

theorem unlines_append (lines more : List (List Char)) :
    unlines (lines ++ more) = unlines lines ++ unlines more :=
  List.flatMap_append

theorem joinLines_newline {lines : List (List Char)} (h : lines ≠ []) :
    joinLines lines ++ ['\n'] = unlines lines := by
  induction lines with
  | nil => exact absurd rfl h
  | cons line rest ih =>
    by_cases hrest : rest = []
    · simp [hrest, joinLines]
    · rw [joinLines_cons line hrest, unlines_cons, ← ih hrest]
      simp

theorem tidy_eq_unlines (text : List Char) : tidy text = unlines (tidyLines text) := by
  unfold tidy
  split
  · rename_i h
    simp [h]
  · rename_i h
    exact joinLines_newline fun hnil => h hnil

theorem trimEnd_append_blank {line blanks : List Char} (h : ∀ c ∈ blanks, isBlank c = true) :
    trimEnd (line ++ blanks) = trimEnd line := by
  have hdrop : (blanks.reverse ++ line.reverse).dropWhile isBlank =
      line.reverse.dropWhile isBlank := by
    rw [List.dropWhile_append]
    have hall : blanks.reverse.dropWhile isBlank = [] :=
      List.dropWhile_eq_nil_iff.mpr fun c hc => h c (List.mem_reverse.mp hc)
    simp [hall]
  simp [trimEnd, hdrop]

/-- Right-trimming takes blanks off the end. -/
theorem exists_trimEnd_append (line : List Char) :
    ∃ blanks, line = trimEnd line ++ blanks ∧ ∀ c ∈ blanks, isBlank c = true := by
  refine ⟨(line.reverse.takeWhile isBlank).reverse, ?_, ?_⟩
  · rw [trimEnd, ← List.reverse_append, List.takeWhile_append_dropWhile, List.reverse_reverse]
  · intro c hc
    exact List.mem_takeWhile_imp (List.mem_reverse.mp hc)

theorem trimEnd_withoutBreak_line (line : List Char) :
    trimEnd (withoutBreak (line ++ ['\n'])) = trimEnd line := by
  have hblank : isBlank '\r' = true := by decide
  unfold withoutBreak
  split
  · rename_i rest h
    have hline : line = rest.reverse ++ ['\r'] := by
      have hrev : line.reverse = '\r' :: rest := by simpa using h
      simpa using congrArg List.reverse hrev
    rw [hline, trimEnd_append_blank (by simp [hblank])]
  · rename_i rest _ h
    have hline : line = rest.reverse := by
      have hrev : line.reverse = rest := by simpa using h
      simpa using congrArg List.reverse hrev
    rw [hline]
  · rename_i _ h
    exact absurd (by simp) (h line.reverse)

theorem withoutBreak_last {line : List Char} (h : '\n' ∉ line) : withoutBreak line = line := by
  unfold withoutBreak
  split
  · rename_i heq
    exact absurd (List.mem_reverse.mp (heq ▸ List.mem_cons_self)) h
  · rename_i heq
    exact absurd (List.mem_reverse.mp (heq ▸ List.mem_cons_self)) h
  · rfl

end BlockSynth.Chars

/-- What holds of texts and of what stands between them holds of all of them together. -/
theorem BlockSynth.Text.join_of_forall {fine : String → Prop} {between : String} (hempty : fine "")
    (happend : ∀ code more, fine code → fine more → fine (code ++ more)) (hbetween : fine between)
    {texts : List String} (h : ∀ text ∈ texts, fine text) : fine (join between texts) := by
  induction texts with
  | nil => exact hempty
  | cons text rest ih =>
    rw [List.forall_mem_cons] at h
    cases rest with
    | nil => exact h.1
    | cons next more => exact happend _ _ (happend _ _ h.1 hbetween) (ih h.2)
