import BlockSynth.Proofs.Text.Lines
import Mathlib.Data.List.Infix
import Mathlib.Data.List.SplitBy

/-! # Collapsed blank lines

Cut where its characters change, a text falls into runs of one character. The count that blank lines
are collapsed by says how far into a run of newlines the text has been read, and starts anew with
every other run. So the runs are treated one by one: of three newlines or more two are left, and all
other runs stay. None is lost, so those on both sides of a cut differ as they did before, and what
is left are the runs of the new text.
-/
namespace BlockSynth.Chars

variable {c : Char} {rest : List Char}

/-- The maximal runs of equal characters. -/
def runs (text : List Char) : List (List Char) :=
  text.splitBy (· == ·)

def newlines (count : Nat) : List Char :=
  List.replicate count '\n'

/-- Two newlines for a run of three or more. -/
def shortenRun (run : List Char) : List Char :=
  if newlines 3 <:+: run then newlines 2 else run

/-! ### The runs of a text -/

theorem flatten_runs (text : List Char) : (runs text).flatten = text :=
  List.flatten_splitBy _ text

theorem runs_replicate_append (n : Nat) (h : rest.head? ≠ some c) :
    runs (List.replicate (n + 1) c ++ rest) = List.replicate (n + 1) c :: runs rest := by
  have hrun : runs (List.replicate (n + 1) c) = [List.replicate (n + 1) c] :=
    List.splitBy_of_isChain (by simp) (List.isChain_replicate_of_rel _ (by simp))
  have hborder : ∀ x ∈ (List.replicate (n + 1) c).getLast?, ∀ y ∈ rest.head?, (x == y) = false := by
    intro x hx y hy
    obtain rfl : c = x := by simpa [List.getLast?_replicate] using hx
    rw [beq_eq_false_iff_ne]
    rintro rfl
    exact h hy
  rw [runs, List.splitBy_append hborder]
  exact congrArg (· ++ runs rest) hrun

theorem exists_run (c : Char) (more : List Char) :
    ∃ n rest, c :: more = List.replicate (n + 1) c ++ rest ∧ rest.head? ≠ some c := by
  induction more with
  | nil => exact ⟨0, [], rfl, by simp⟩
  | cons d more ih =>
    by_cases hd : d = c
    · subst hd
      obtain ⟨n, rest, hmore, hrest⟩ := ih
      exact ⟨n + 1, rest, by rw [hmore]; rfl, hrest⟩
    · exact ⟨0, d :: more, rfl, by simpa using hd⟩

/-- Induction on the runs of a text. -/
@[elab_as_elim]
theorem run_induction {motive : List Char → Prop} (nil : motive [])
    (run : ∀ c n rest, rest.head? ≠ some c → motive rest →
      motive (List.replicate (n + 1) c ++ rest)) (text : List Char) : motive text := by
  induction h : text.length using Nat.strongRecOn generalizing text with
  | ind length ih =>
    cases text with
    | nil => exact nil
    | cons c more =>
      obtain ⟨n, rest, hmore, hrest⟩ := exists_run c more
      rw [hmore] at h ⊢
      refine run c n rest hrest (ih rest.length ?_ rest rfl)
      rw [← h, List.length_append, List.length_replicate]
      omega

/-- Newlines in succession do not go over from a run to what follows it. -/
theorem newlines_infix_append_iff (k n : Nat) (h : rest.head? ≠ some c) :
    newlines k <:+: List.replicate n c ++ rest ↔
    newlines k <:+: List.replicate n c ∨ newlines k <:+: rest := by
  rw [List.infix_append_iff]
  constructor
  · rintro (hrun | hrest | ⟨front, back, hsplit, hfront, hback⟩)
    · exact .inl hrun
    · exact .inr hrest
    · have hnewline : ∀ x ∈ front ++ back, x = '\n' :=
        fun x hx => List.eq_of_mem_replicate (hsplit ▸ hx)
      cases front with
      | nil => exact .inr (hsplit ▸ hback.isInfix)
      | cons x front =>
        cases back with
        | nil =>
          rw [List.append_nil] at hsplit
          exact .inl (hsplit ▸ hfront.isInfix)
        | cons y back =>
          -- With a newline on either side of the border it would be none.
          obtain ⟨tail, rfl⟩ := hback
          have hc : x = c := List.eq_of_mem_replicate (hfront.subset List.mem_cons_self)
          have hy : y = c := by rw [hnewline y (by simp), ← hnewline x (by simp), hc]
          exact absurd (congrArg some hy) h
  · rintro (hrun | hrest)
    · exact .inl hrun
    · exact .inr (.inl hrest)

theorem newlines_infix_iff (k : Nat) (text : List Char) :
    newlines (k + 1) <:+: text ↔ ∃ run ∈ runs text, newlines (k + 1) <:+: run := by
  induction text using run_induction with
  | nil => simp [newlines, runs]
  | run c n rest h ih =>
    rw [newlines_infix_append_iff _ _ h, runs_replicate_append n h, List.exists_mem_cons_iff, ih]

/-! ### Shortened runs -/

theorem shortenRun_newlines (n : Nat) : shortenRun (newlines n) = newlines (min n 2) := by
  have hthree : newlines 3 <:+: newlines n ↔ 3 ≤ n := by simp [newlines, List.infix_replicate_iff]
  by_cases hn : 3 ≤ n
  · rw [shortenRun, if_pos (hthree.mpr hn), Nat.min_eq_right (by omega)]
  · rw [shortenRun, if_neg (hn ∘ hthree.mp), Nat.min_eq_left (by omega)]

theorem shortenRun_replicate_of_ne (hc : c ≠ '\n') (n : Nat) :
    shortenRun (List.replicate n c) = List.replicate n c := by
  refine if_neg fun hthree => hc ?_
  exact (List.eq_of_mem_replicate (hthree.subset (by simp [newlines]))).symm

/-- No run is lost, and none gets other characters. -/
theorem exists_shortenRun_replicate (c : Char) (n : Nat) :
    ∃ m, shortenRun (List.replicate (n + 1) c) = List.replicate (m + 1) c := by
  by_cases hc : c = '\n'
  · subst hc
    exact ⟨min n 1, (shortenRun_newlines (n + 1)).trans (congrArg newlines (by omega))⟩
  · exact ⟨n, shortenRun_replicate_of_ne hc _⟩

theorem not_newlines_infix_shortenRun (run : List Char) : ¬newlines 3 <:+: shortenRun run := by
  rw [shortenRun]
  split
  · decide
  · assumption

/-! ### Counting newlines -/

theorem collapseAfter_of_head? (seen : Nat) (h : rest.head? ≠ some '\n') :
    collapseAfter seen rest = collapseBlankLines rest := by
  cases rest with
  | nil => rfl
  | cons c more =>
    have hc : c ≠ '\n' := by simpa using h
    rw [collapseBlankLines, collapseAfter, collapseAfter, if_neg hc, if_neg hc]

/-- The newlines of a run are kept until two have been seen. -/
theorem collapseAfter_newlines_append (seen n : Nat) (h : rest.head? ≠ some '\n') :
    collapseAfter seen (newlines n ++ rest) =
      newlines (min n (2 - seen)) ++ collapseBlankLines rest := by
  induction n generalizing seen with
  | zero =>
    rw [Nat.zero_min]
    exact collapseAfter_of_head? seen h
  | succ n ih =>
    rw [newlines, List.replicate_succ, List.cons_append, collapseAfter, if_pos rfl]
    split
    · rw [show min (n + 1) (2 - seen) = min n (2 - (seen + 1)) + 1 by omega]
      exact congrArg ('\n' :: ·) (ih (seen + 1))
    · rw [show min (n + 1) (2 - seen) = min n (2 - seen) by omega]
      exact ih seen

theorem collapseBlankLines_run_append (n : Nat) (h : rest.head? ≠ some c) :
    collapseBlankLines (List.replicate n c ++ rest) =
      shortenRun (List.replicate n c) ++ collapseBlankLines rest := by
  by_cases hc : c = '\n'
  · subst hc
    exact (collapseAfter_newlines_append 0 n h).trans
      (congrArg (· ++ _) (shortenRun_newlines n).symm)
  · have hline : '\n' ∉ List.replicate n c := fun hmem => hc (List.eq_of_mem_replicate hmem).symm
    rw [shortenRun_replicate_of_ne hc]
    exact collapseAfter_line_append hline rest

theorem head?_collapseBlankLines (text : List Char) :
    (collapseBlankLines text).head? = text.head? := by
  cases text with
  | nil => rfl
  | cons c rest =>
    rw [collapseBlankLines, collapseAfter]
    split
    · rfl
    · rfl

theorem runs_collapseBlankLines (text : List Char) :
    runs (collapseBlankLines text) = (runs text).map shortenRun := by
  induction text using run_induction with
  | nil => rfl
  | run c n rest h ih =>
    have hborder : (collapseBlankLines rest).head? ≠ some c := by rwa [head?_collapseBlankLines]
    obtain ⟨m, hm⟩ := exists_shortenRun_replicate c n
    rw [collapseBlankLines_run_append _ h, runs_replicate_append n h, List.map_cons, ← ih, hm,
      runs_replicate_append m hborder]

/-! ### The normal form -/

theorem not_newlines_infix_collapseBlankLines (text : List Char) :
    ¬newlines 3 <:+: collapseBlankLines text := by
  rw [newlines_infix_iff 2, runs_collapseBlankLines]
  rintro ⟨run, hrun, hthree⟩
  obtain ⟨original, -, rfl⟩ := List.mem_map.mp hrun
  exact not_newlines_infix_shortenRun original hthree

theorem collapseBlankLines_eq_self_iff (text : List Char) :
    collapseBlankLines text = text ↔ ¬newlines 3 <:+: text := by
  constructor
  · intro hself
    rw [← hself]
    exact not_newlines_infix_collapseBlankLines text
  · intro hfree
    have hkept : ∀ run ∈ runs text, shortenRun run = run := fun run hrun =>
      if_neg fun hthree => hfree ((newlines_infix_iff 2 text).mpr ⟨run, hrun, hthree⟩)
    rw [← flatten_runs (collapseBlankLines text), runs_collapseBlankLines,
      List.map_congr_left hkept, List.map_id', flatten_runs]

end BlockSynth.Chars

namespace BlockSynth.Text

open Chars

/-- Collapsing blank lines leads to a normal form. Its runs are those of the text, one for one, with
two newlines for three or more, so there are no three in succession and another pass finds nothing
to do. A text is left alone if and only if it has no three in succession. -/
theorem runs_of_newlines_are_shortened_to_two (text : String) :
    let collapsed := collapseBlankLines text
    ¬newlines 3 <:+: collapsed.toList ∧ runs collapsed.toList = (runs text.toList).map shortenRun ∧
      collapseBlankLines collapsed = collapsed ∧
      (collapsed = text ↔ ¬newlines 3 <:+: text.toList) := by
  intro collapsed
  have hcollapsed : collapsed.toList = Chars.collapseBlankLines text.toList := String.toList_ofList
  have hself : ∀ text : String,
      collapseBlankLines text = text ↔ ¬newlines 3 <:+: text.toList := fun text => by
    rw [← collapseBlankLines_eq_self_iff, ← String.toList_inj, collapseBlankLines,
      String.toList_ofList]
  have hfree : ¬newlines 3 <:+: collapsed.toList := by
    rw [hcollapsed]
    exact not_newlines_infix_collapseBlankLines text.toList
  refine ⟨hfree, ?_, (hself collapsed).mpr hfree, hself text⟩
  rw [hcollapsed]
  exact runs_collapseBlankLines text.toList

/-- Runs at both ends and between other characters, and two newlines that stay. -/
example : collapseBlankLines "\n\n\n\naa\n\nb\n\n\n" = "\n\naa\n\nb\n\n" := by decide

end BlockSynth.Text
