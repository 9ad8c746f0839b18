import BlockSynth.Proofs.Text.Lines
import BlockSynth.Text.Replace
import Mathlib.Data.List.Infix

/-! # What a text mentions

A word stands on one side of every character that it does not have, so a word without newline is
found in one line. Writing a name for every mark of a text brings in no word that shuns the parts
between the marks, unless the name has it.
-/
namespace BlockSynth

def Mentions (word text : String) : Prop :=
  word.toList <:+: text.toList

namespace Chars

variable {word text : List Char}

theorem prefix_of_prefix_append_cons {c : Char} (hc : c ∉ word) {before after : List Char}
    (h : word <+: before ++ c :: after) : word <+: before := by
  induction before generalizing word with
  | nil =>
    cases word with
    | nil => exact List.prefix_rfl
    | cons first rest =>
      rw [List.nil_append, List.cons_prefix_cons] at h
      exact absurd (h.1 ▸ List.mem_cons_self) hc
  | cons other before ih =>
    cases word with
    | nil => exact List.nil_prefix
    | cons first rest =>
      rw [List.cons_append, List.cons_prefix_cons] at h
      exact List.cons_prefix_cons.mpr ⟨h.1, ih (fun hmem => hc (List.mem_cons_of_mem _ hmem)) h.2⟩

/-- A word stands on one side of a character that it does not have. -/
theorem infix_append_cons {c : Char} (hc : c ∉ word) {before after : List Char}
    (h : word <:+: before ++ c :: after) : word <:+: before ∨ word <:+: after := by
  induction before with
  | nil =>
    rcases List.infix_cons_iff.mp h with hstart | hfound
    · exact .inl (prefix_of_prefix_append_cons hc hstart).isInfix
    · exact .inr hfound
  | cons first before ih =>
    rw [List.cons_append] at h
    rcases List.infix_cons_iff.mp h with hstart | hfound
    · exact .inl (prefix_of_prefix_append_cons hc hstart).isInfix
    · exact (ih hfound).imp_left fun hmem => hmem.trans (List.suffix_cons first before).isInfix

/-- Characters that a word does not have can be dropped in front of it. -/
theorem infix_of_infix_append (hword : word ≠ []) {lead : List Char} (hlead : ∀ c ∈ lead, c ∉ word)
    (h : word <:+: lead ++ text) : word <:+: text := by
  induction lead with
  | nil => exact h
  | cons c lead ih =>
    rw [List.forall_mem_cons] at hlead
    rcases @infix_append_cons word c hlead.1 [] (lead ++ text) h with hnil | hrest
    · exact absurd (List.infix_nil.mp hnil) hword
    · exact ih hlead.2 hrest

/-- Whether a word stands in a text. -/
def occurs (word : List Char) : List Char → Bool
  | [] => word.isEmpty
  | c :: rest => word.isPrefixOf (c :: rest) || occurs word rest

theorem occurs_iff : occurs word text = true ↔ word <:+: text := by
  induction text with
  | nil => simp [occurs]
  | cons c rest ih =>
    rw [occurs, Bool.or_eq_true, ih, List.isPrefixOf_iff_prefix, List.infix_cons_iff]

/-! ### Lines -/

theorem infix_of_infix_joinLines (hword : word ≠ []) (hline : '\n' ∉ word)
    {lines : List (List Char)} (h : word <:+: joinLines lines) :
    ∃ line ∈ lines, word <:+: line := by
  induction lines with
  | nil => exact absurd (List.infix_nil.mp h) hword
  | cons line rest ih =>
    cases rest with
    | nil => exact ⟨line, List.mem_cons_self, h⟩
    | cons next more =>
      rcases infix_append_cons hline h with hhere | hmore
      · exact ⟨line, List.mem_cons_self, hhere⟩
      · obtain ⟨other, hother, hfound⟩ := ih hmore
        exact ⟨other, List.mem_cons_of_mem _ hother, hfound⟩

theorem infix_joinLines {line : List Char} {lines : List (List Char)} (h : line ∈ lines) :
    line <:+: joinLines lines := by
  induction lines with
  | nil => simp at h
  | cons first rest ih =>
    cases rest with
    | nil => exact List.mem_singleton.mp h ▸ List.infix_rfl
    | cons next more =>
      rcases List.mem_cons.mp h with rfl | hmem
      · exact (List.prefix_append _ _).isInfix
      · exact (ih hmem).trans ((List.suffix_cons '\n' _).trans (List.suffix_append first _)).isInfix

/-! ### The name in place of a mark -/

/-- The parts of a text between the occurrences of a pattern that are replaced in it. -/
def between (pattern : List Char) : Nat → List Char → List (List Char)
  | _, [] => [[]]
  | skip + 1, _ :: rest => between pattern skip rest
  | 0, c :: rest =>
    if pattern.isPrefixOf (c :: rest) then [] :: between pattern (pattern.length - 1) rest
    else match between pattern 0 rest with
      | [] => [[c]]
      | part :: more => (c :: part) :: more

theorem between_ne_nil (pattern : List Char) (skip : Nat) (text : List Char) :
    between pattern skip text ≠ [] := by
  fun_induction between pattern skip text <;> simp_all

theorem replaceAfter_eq (pattern new : List Char) (skip : Nat) (text : List Char) :
    replaceAfter pattern new skip text = List.intercalate new (between pattern skip text) := by
  fun_induction between pattern skip text with
  | case1 skip => cases skip <;> rfl
  | case2 skip c rest ih => exact ih
  | case3 c rest hstart ih =>
    rw [replaceAfter, if_pos hstart, ih, List.intercalate_cons_of_ne_nil (between_ne_nil _ _ _)]
    rfl
  | case4 c rest hstart hnil ih => exact absurd hnil (between_ne_nil pattern 0 rest)
  | case5 c rest hstart part more heq ih =>
    rw [replaceAfter, if_neg hstart, ih, heq]
    cases more <;> rfl

/-- A word neither lies in a part nor reaches into it from outside. -/
def shuns (word part : List Char) : Bool :=
  !part.isEmpty && part.head?.all (!word.contains ·) && part.getLast?.all
    (!word.contains ·) && !occurs word part

structure Shuns (word part : List Char) : Prop where
  ne_nil : part ≠ []
  head : ∀ c ∈ part.head?, c ∉ word
  last : ∀ c ∈ part.getLast?, c ∉ word
  free : ¬word <:+: part

theorem shuns_iff {part : List Char} : shuns word part = true ↔ Shuns word part := by
  have hall : ∀ end? : Option Char, end?.all (!word.contains ·) = true ↔ ∀ c ∈ end?, c ∉ word := by
    intro end?
    cases end? <;> simp
  have hfree : (!occurs word part) = true ↔ ¬word <:+: part := by
    rw [Bool.not_eq_true', ← Bool.not_eq_true, occurs_iff]
  rw [shuns, Bool.and_eq_true, Bool.and_eq_true, Bool.and_eq_true, hall, hall, hfree]
  constructor
  · rintro ⟨⟨⟨hne, hhead⟩, hlast⟩, hnot⟩
    exact ⟨by simpa using hne, hhead, hlast, hnot⟩
  · rintro ⟨hne, hhead, hlast, hnot⟩
    exact ⟨⟨⟨by simpa using hne, hhead⟩, hlast⟩, hnot⟩

/-- What lies behind a part that a word shuns. -/
theorem Shuns.infix_append {part : List Char}
    (h : Shuns word part) (hfound : word <:+: part ++ text) :
    word <:+: text := by
  rw [← List.dropLast_append_getLast h.ne_nil, List.append_assoc] at hfound
  have hsides := infix_append_cons (h.last _ (List.getLast?_eq_some_getLast h.ne_nil)) hfound
  rcases hsides with hbefore | hafter
  · exact absurd (hbefore.trans (List.dropLast_prefix part).isInfix) h.free
  · exact hafter

/-- What lies before a part that a word shuns, or behind it. -/
theorem Shuns.infix_between {part before : List Char} (h : Shuns word part)
    (hfound : word <:+: before ++ (part ++ text)) : word <:+: before ∨ word <:+: part ++ text := by
  cases part with
  | nil => exact absurd rfl h.ne_nil
  | cons c rest =>
    rcases infix_append_cons (h.head c rfl) hfound with hbefore | hafter
    · exact .inl hbefore
    · exact .inr (hafter.trans (List.suffix_cons c _).isInfix)

theorem Shuns.infix_intercalate {new : List Char} {parts : List (List Char)}
    (h : ∀ part ∈ parts, Shuns word part) (hword : word ≠ [])
    (hfound : word <:+: List.intercalate new parts) : word <:+: new := by
  induction parts with
  | nil => exact absurd (List.infix_nil.mp hfound) hword
  | cons part rest ih =>
    rw [List.forall_mem_cons] at h
    cases rest with
    | nil => exact absurd (by simpa using hfound) h.1.free
    | cons next more =>
      rw [List.intercalate_cons_cons] at hfound
      obtain ⟨tail, htail⟩ : ∃ tail, List.intercalate new (next :: more) = next ++ tail := by
        cases more with
        | nil => exact ⟨[], by simp⟩
        | cons other others => exact ⟨_, by rw [List.intercalate_cons_cons, List.append_assoc]⟩
      rw [List.append_assoc] at hfound
      have hrest := h.1.infix_append hfound
      rw [htail] at hrest ih
      rcases (h.2 next List.mem_cons_self).infix_between hrest with hnew | hmore
      · exact hnew
      · exact ih h.2 hmore

end Chars

instance (word text : String) : Decidable (Mentions word text) :=
  decidable_of_iff _ Chars.occurs_iff

end BlockSynth
