import BlockSynth.Proofs.Text.Remark
import Mathlib.Data.List.DropRight

/-! # The final form of a text

Tidying right-trims the lines of a text and leaves out the blank ones at both ends.
The lines are found twice: a text that is tidied again is split anew, where its
newlines stand now. Both times the lines that are kept are the ones from the first to
the last solid line, so what comes out is tidy and is not changed any more.
-/
namespace BlockSynth.Chars

/-- What the last step of generating a program is to leave. -/
structure IsTidy (text : List Char) : Prop where
  ends : text = [] ∨ ∃ front last, last ≠ '\n' ∧ text = front ++ [last, '\n']
  starts : text = [] ∨ ∃ line rest, splitLines text = line :: rest ∧ isSolid line = true
  trimmed : ∀ line ∈ splitLines text, ∀ c, line.getLast? = some c → isBlank c = false

/-- Of some lines, those from the first to the last one that is solid. -/
structure Kept (lines before kept after : List (List Char)) : Prop where
  split : lines = before ++ kept ++ after
  blank : ∀ line ∈ before ++ after, isSolid line = false
  first : ∀ line, kept.head? = some line → isSolid line = true
  last : ∀ line, kept.getLast? = some line → isSolid line = true

variable {text line : List Char} {lines before kept after : List (List Char)}

/-! ### Right-trimmed lines -/

theorem of_head?_dropWhile {α : Type} {drops : α → Bool} {xs : List α} {x : α}
    (h : (xs.dropWhile drops).head? = some x) : drops x = false := by
  have hhead := List.head?_dropWhile_not drops xs
  rwa [h] at hhead

theorem of_getLast?_rdropWhile {α : Type} {drops : α → Bool} {xs : List α} {x : α}
    (h : (xs.rdropWhile drops).getLast? = some x) : drops x = false := by
  rw [List.rdropWhile, List.getLast?_reverse] at h
  exact of_head?_dropWhile h

theorem rdropWhile_append_of_pos {α : Type} {drops : α → Bool}
    {xs ys : List α} (h : ∀ y ∈ ys, drops y = true) :
    (xs ++ ys).rdropWhile drops = xs.rdropWhile drops := by
  have hreverse : ∀ y ∈ ys.reverse, drops y = true := fun y hy => h y (List.mem_reverse.mp hy)
  rw [List.rdropWhile, List.reverse_append, List.dropWhile_append_of_pos hreverse]
  rfl

theorem rdropWhile_eq_self {α : Type} {drops : α → Bool} {xs : List α}
    (h : ∀ x, xs.getLast? = some x → drops x = false) : xs.rdropWhile drops = xs := by
  rw [List.rdropWhile_eq_self_iff]
  intro hne
  rw [h _ (List.getLast?_eq_getLast_of_ne_nil hne)]
  exact Bool.false_ne_true

theorem trimEnd_trimEnd (line : List Char) : trimEnd (trimEnd line) = trimEnd line :=
  List.rdropWhile_idempotent isBlank line

theorem isSolid_trimEnd (line : List Char) : isSolid (trimEnd line) = isSolid line := by
  rw [Bool.eq_iff_iff, ← not_iff_not, Bool.not_eq_true, Bool.not_eq_true, ← trimEnd_eq_nil_iff,
    ← trimEnd_eq_nil_iff, trimEnd_trimEnd]

theorem isEmpty_trimEnd (line : List Char) : (trimEnd line).isEmpty = !isSolid line := by
  rw [Bool.eq_iff_iff, List.isEmpty_iff, trimEnd_eq_nil_iff, Bool.not_eq_true']

theorem isSolid_eq_false_iff : isSolid line = false ↔ ∀ c ∈ line, isBlank c = true := by
  simp [isSolid]

/-! ### The lines that are kept -/

theorem exists_kept (lines : List (List Char)) :
    ∃ before kept after, Kept lines before kept after := by
  let blank : List Char → Bool := fun line => !isSolid line
  have hblank : ∀ line, blank line = true → isSolid line = false :=
    fun line h => by simpa [blank] using h
  have hsolid : ∀ line, blank line = false → isSolid line = true :=
    fun line h => by simpa [blank] using h
  let rest := lines.dropWhile blank
  have hrest : rest.rdropWhile blank ++ rest.rtakeWhile blank = rest :=
    List.rdropWhile_append_rtakeWhile
  refine ⟨lines.takeWhile blank, rest.rdropWhile blank, rest.rtakeWhile blank, ?_, ?_, ?_, ?_⟩
  · rw [List.append_assoc, hrest, List.takeWhile_append_dropWhile]
  · intro line hline
    apply hblank
    rcases List.mem_append.mp hline with hline | hline
    · exact List.mem_takeWhile_imp hline
    · exact List.mem_rtakeWhile_imp hline
  · intro line hline
    have hhead : rest.head? = some line := by
      rw [← hrest, List.head?_append, hline]
      rfl
    exact hsolid line (of_head?_dropWhile hhead)
  · intro line hline
    exact hsolid line (of_getLast?_rdropWhile hline)

/-- The lines are right-trimmed before the blank ones are left out, and the same ones
are left out. -/
theorem Kept.strip (h : Kept lines before kept after) :
    ((lines.map trimEnd).dropWhile List.isEmpty).rdropWhile List.isEmpty = kept.map trimEnd := by
  have hempty : ∀ line ∈ before.map trimEnd ++ after.map trimEnd, line.isEmpty = true := by
    rw [← List.map_append, List.forall_mem_map]
    intro line hline
    rw [isEmpty_trimEnd, h.blank line hline]
    rfl
  obtain ⟨hbefore, hafter⟩ := List.forall_mem_append.mp hempty
  rw [h.split, List.append_assoc, List.map_append, List.map_append,
    List.dropWhile_append_of_pos hbefore]
  cases kept with
  | nil =>
    rw [List.map_nil, List.nil_append, List.dropWhile_eq_nil_iff.mpr hafter]
    rfl
  | cons first rest =>
    have hfirst : (trimEnd first).isEmpty = false := by
      rw [isEmpty_trimEnd, h.first first rfl]
      rfl
    rw [List.map_cons, List.cons_append,
      List.dropWhile_cons_of_neg (by simp [hfirst]), ← List.cons_append,
      ← List.map_cons, rdropWhile_append_of_pos hafter]
    refine rdropWhile_eq_self fun line hline => ?_
    rw [List.getLast?_map, Option.map_eq_some_iff] at hline
    obtain ⟨last, hlast, rfl⟩ := hline
    rw [isEmpty_trimEnd, h.last last hlast]
    rfl

/-- A text split at its newlines has the lines that are trimmed, and perhaps a blank
one behind them. -/
theorem exists_splitLines_append (text : List Char) : ∃ lines rest,
    splitLines text = lines ++ rest ∧ (∀ line ∈ rest, isSolid line = false) ∧
      (pieces text).map (fun piece => trimEnd (withoutBreak piece)) = lines.map trimEnd := by
  induction text using line_induction with
  | last line h =>
    rw [splitLines_last h, pieces_last h]
    by_cases hline : line = []
    · exact ⟨[], [line], rfl, by simp [hline, isSolid], by simp [hline]⟩
    · exact ⟨[line], [], rfl, by simp, by simp [hline, withoutBreak_last h]⟩
  | more line text h ih =>
    obtain ⟨lines, rest, hsplit, hrest, hpieces⟩ := ih
    refine ⟨line :: lines, rest, ?_, hrest, ?_⟩
    · rw [splitLines_line h, hsplit, List.cons_append]
    · rw [pieces_line h, List.map_cons, hpieces, trimEnd_withoutBreak_line, List.map_cons]

theorem splitLines_unlines (h : Lines lines) : splitLines (unlines lines) = lines ++ [[]] := by
  induction lines with
  | nil => rfl
  | cons line rest ih =>
    rw [Lines, List.forall_mem_cons] at h
    rw [unlines_cons, splitLines_line h.1, ih h.2, List.cons_append]

theorem newline_not_mem_splitLines (text : List Char) : Lines (splitLines text) := by
  induction text using line_induction with
  | last line h =>
    rw [splitLines_last h]
    exact List.forall_mem_singleton.mpr h
  | more line rest h ih =>
    rw [splitLines_line h]
    exact List.forall_mem_cons.mpr ⟨h, ih⟩

theorem Kept.append {rest : List (List Char)} (h : Kept lines before kept after)
    (hrest : ∀ line ∈ rest, isSolid line = false) :
    Kept (lines ++ rest) before kept (after ++ rest) where
  split := by rw [h.split, List.append_assoc]
  blank := by
    rw [← List.append_assoc]
    exact List.forall_mem_append.mpr ⟨h.blank, hrest⟩
  first := h.first
  last := h.last

theorem tidyLines_eq_of_kept (hkept : Kept lines before kept after)
    (hlines : (pieces text).map (fun piece => trimEnd (withoutBreak piece)) = lines.map trimEnd) :
    tidyLines text = kept.map trimEnd := by
  rw [← hkept.strip, ← hlines]
  rfl

theorem exists_tidyLines_eq (text : List Char) : ∃ before kept after,
    Kept (splitLines text) before kept after ∧ tidyLines text = kept.map trimEnd := by
  obtain ⟨lines, rest, hsplit, hrest, hlines⟩ := exists_splitLines_append text
  obtain ⟨before, kept, after, hkept⟩ := exists_kept lines
  refine ⟨before, kept, after ++ rest, ?_, tidyLines_eq_of_kept hkept hlines⟩
  rw [hsplit]
  exact hkept.append hrest

/-! ### Tidied text -/

/-- Lines that tidying leaves as they are. -/
structure Trim (lines : List (List Char)) : Prop where
  whole : Lines lines
  kept : Kept lines [] lines []
  trimmed : ∀ line ∈ lines, trimEnd line = line

theorem trim_tidyLines (text : List Char) : Trim (tidyLines text) := by
  obtain ⟨before, kept, after, hkept, hlines⟩ := exists_tidyLines_eq text
  rw [hlines]
  refine ⟨?_, ⟨by simp, by simp, ?_, ?_⟩, ?_⟩
  · rw [Lines, List.forall_mem_map]
    intro line hline
    refine newline_not_mem_trimEnd (newline_not_mem_splitLines text line ?_)
    rw [hkept.split]
    exact List.mem_append_left after (List.mem_append_right before hline)
  · intro line hline
    rw [List.head?_map, Option.map_eq_some_iff] at hline
    obtain ⟨first, hfirst, rfl⟩ := hline
    rw [isSolid_trimEnd, hkept.first first hfirst]
  · intro line hline
    rw [List.getLast?_map, Option.map_eq_some_iff] at hline
    obtain ⟨last, hlast, rfl⟩ := hline
    rw [isSolid_trimEnd, hkept.last last hlast]
  · exact List.forall_mem_map.mpr fun line _ => trimEnd_trimEnd line

theorem Trim.tidyLines_eq (h : Trim lines) : tidyLines (unlines lines) = lines := by
  have hsame : lines.map trimEnd = lines := by
    rw [List.map_congr_left h.trimmed, List.map_id']
  rw [tidyLines_eq_of_kept h.kept, hsame]
  rw [pieces_unlines h.whole, List.map_map]
  simp only [Function.comp_def, trimEnd_withoutBreak_line]

theorem Trim.isTidy (h : Trim lines) : IsTidy (unlines lines) where
  ends := by
    rcases List.eq_nil_or_concat' lines with rfl | ⟨front, last, rfl⟩
    · exact .inl rfl
    · have hsolid : isSolid last = true := h.kept.last last (by simp)
      obtain ⟨chars, c, rfl⟩ :=
        (List.eq_nil_or_concat' last).resolve_left (ne_nil_of_isSolid hsolid)
      have hline := h.whole (chars ++ [c]) (by simp)
      have hc : c ≠ '\n' := by
        rintro rfl
        exact hline (by simp)
      exact .inr ⟨unlines front ++ chars, c, hc, by simp [unlines_append]⟩
  starts := by
    cases lines with
    | nil => exact .inl rfl
    | cons first rest =>
      refine .inr ⟨first, rest ++ [[]], ?_, h.kept.first first rfl⟩
      rw [splitLines_unlines h.whole, List.cons_append]
  trimmed := by
    rw [splitLines_unlines h.whole, List.forall_mem_append, List.forall_mem_singleton]
    refine ⟨fun line hline c hc => ?_, by simp⟩
    rw [← h.trimmed line hline] at hc
    exact of_getLast?_rdropWhile hc

theorem forall_isBlank_iff (text : List Char) :
    (∀ c ∈ text, isBlank c = true) ↔ ∀ line ∈ splitLines text, isSolid line = false := by
  have hnewline : isBlank '\n' = true := by decide
  induction text using line_induction with
  | last line h => rw [splitLines_last h, List.forall_mem_singleton, isSolid_eq_false_iff]
  | more line rest h ih =>
    rw [splitLines_line h, List.forall_mem_cons, isSolid_eq_false_iff, List.forall_mem_append,
      List.forall_mem_cons]
    simp only [hnewline, true_and]
    exact and_congr_right fun _ => ih

theorem Kept.eq_nil_iff (h : Kept lines before kept after) :
    kept = [] ↔ ∀ line ∈ lines, isSolid line = false := by
  constructor
  · rintro rfl
    rw [h.split, List.append_nil]
    exact h.blank
  · intro hblank
    cases kept with
    | nil => rfl
    | cons first rest =>
      have hmem : first ∈ lines := by simp [h.split]
      exact absurd ((hblank first hmem).symm.trans (h.first first rfl)) Bool.false_ne_true

theorem tidy_eq_nil_iff (text : List Char) : tidy text = [] ↔ ∀ c ∈ text, isBlank c = true := by
  obtain ⟨before, kept, after, hkept, hlines⟩ := exists_tidyLines_eq text
  rw [forall_isBlank_iff, ← hkept.eq_nil_iff, tidy_eq_unlines, hlines]
  cases kept with
  | nil => simp
  | cons first rest => simp

end BlockSynth.Chars

namespace BlockSynth.Text

open Chars

/-- The final form is a normal form. It is empty or ends with one newline, begins with
a solid line and has no blank at the end of a line. Its lines are the right-trimmed
lines of the text, from the first to the last one that is solid, so it is empty for
blank text only, and another pass finds nothing to do. -/
theorem final_form_is_normal (text : String) :
    IsTidy (tidy text).toList ∧
      (∃ before kept after, Kept (splitLines text.toList) before kept after ∧
        (tidy text).toList = unlines (kept.map trimEnd)) ∧
      (tidy text = "" ↔ ∀ c ∈ text.toList, isBlank c = true) ∧
      tidy (tidy text) = tidy text := by
  have htidy : ∀ text : String,
      (tidy text).toList = unlines (tidyLines text.toList) := fun text => by
    rw [tidy, String.toList_ofList, tidy_eq_unlines]
  have htrim := trim_tidyLines text.toList
  refine ⟨?_, ?_, ?_, ?_⟩
  · rw [htidy]
    exact htrim.isTidy
  · obtain ⟨before, kept, after, hkept, hlines⟩ := exists_tidyLines_eq text.toList
    exact ⟨before, kept, after, hkept, by rw [htidy, hlines]⟩
  · rw [← tidy_eq_nil_iff, ← String.toList_eq_nil_iff, tidy, String.toList_ofList]
  · rw [← String.toList_inj, htidy, htidy, htrim.tidyLines_eq]

/-- Carriage returns and wide blanks go with the ends of the lines, and only the blank
line inside is left. -/
example : tidy " \n\r\n  a\t\r\n\u3000\nb\r\r\n\n " = "  a\n\nb\n" := by decide

end BlockSynth.Text
