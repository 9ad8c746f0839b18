import BlockSynth.Proofs.Text.Literal
import BlockSynth.Proofs.Text.Mention

/-! # Templates filled with literals

A pattern whose first character does not come again in it cuts a text into parts in one way only. A
template is filled by joining its parts with the literal of an id, so that nothing else in it
changes and no mark in the id counts. Together with what is known of literals, this is all that
becomes of text that is quoted.
-/
namespace BlockSynth

namespace Chars

/-- The parts of a text between the occurrences of a pattern. -/
structure IsCut (pattern text : List Char) (parts : List (List Char)) : Prop where
  ne_nil : parts ≠ []
  joined : List.intercalate pattern parts = text
  free : ∀ part ∈ parts, ¬pattern <:+: part

/-! ### There is a cut -/

theorem between_eq_drop (pattern : List Char) (skip : Nat) (text : List Char) :
    between pattern skip text = between pattern 0 (text.drop skip) := by
  induction skip generalizing text with
  | zero => rfl
  | succ skip ih =>
    cases text with
    | nil => rfl
    | cons c rest => exact ih rest

theorem drop_of_prefix {pattern text : List Char} (h : pattern <+: text) :
    pattern ++ text.drop pattern.length = text := by
  obtain ⟨rest, rfl⟩ := h
  rw [List.drop_left]

/-- What is cut off comes back with the pattern between the parts. -/
theorem intercalate_between {pattern : List Char}
    (hne : pattern ≠ []) (skip : Nat) (text : List Char) :
    List.intercalate pattern (between pattern skip text) = text.drop skip := by
  fun_induction between pattern skip text with
  | case1 skip => simp
  | case2 skip c rest ih => exact ih
  | case3 c rest hstart ih =>
    have hdrop : rest.drop (pattern.length - 1) = (c :: rest).drop pattern.length := by
      rw [← Nat.succ_pred_eq_of_pos (List.length_pos_iff.mpr hne)]
      rfl
    rw [List.intercalate_cons_of_ne_nil (between_ne_nil _ _ _), ih, hdrop, List.nil_append]
    exact drop_of_prefix (List.isPrefixOf_iff_prefix.mp hstart)
  | case4 c rest hstart hnil ih => exact absurd hnil (between_ne_nil pattern 0 rest)
  | case5 c rest hstart part more heq ih =>
    rw [heq] at ih
    cases more with
    | nil => simpa using ih
    | cons next others => simpa [List.intercalate_cons_cons] using ih

theorem not_infix_of_mem_between {pattern : List Char}
    (hne : pattern ≠ []) (skip : Nat) (text : List Char) :
    ∀ part ∈ between pattern skip text, ¬pattern <:+: part := by
  have hnil : ¬pattern <:+: [] := fun h => hne (List.infix_nil.mp h)
  fun_induction between pattern skip text with
  | case1 skip => simpa using hnil
  | case2 skip c rest ih => exact ih
  | case3 c rest hstart ih => exact List.forall_mem_cons.mpr ⟨hnil, ih⟩
  | case4 c rest hstart hnone ih => exact absurd hnone (between_ne_nil pattern 0 rest)
  | case5 c rest hstart part more heq ih =>
    rw [heq, List.forall_mem_cons] at ih
    refine List.forall_mem_cons.mpr ⟨fun hfound => ?_, ih.2⟩
    -- An occurrence at the start of the part would be one at the start of the text.
    have hpart : part <+: rest := by
      have hjoin := intercalate_between hne 0 rest
      rw [heq, List.drop_zero] at hjoin
      rw [← hjoin]
      cases more with
      | nil => simp
      | cons next others => simp [List.intercalate_cons_cons]
    rcases List.infix_cons_iff.mp hfound with hhere | hlater
    · have htext := hhere.trans (List.cons_prefix_cons.mpr ⟨rfl, hpart⟩)
      exact hstart (List.isPrefixOf_iff_prefix.mpr htext)
    · exact ih.1 hlater

theorem isCut_between {pattern : List Char} (hne : pattern ≠ []) (text : List Char) :
    IsCut pattern text (between pattern 0 text) where
  ne_nil := between_ne_nil pattern 0 text
  joined := intercalate_between hne 0 text
  free := not_infix_of_mem_between hne 0 text

/-! ### There is only one -/

variable {first : Char} {tail : List Char}

/-- No occurrence reaches from a part into what begins with the first character of the pattern. -/
theorem not_prefix_append (hfirst : first ∉ tail) {part : List Char} (hne : part ≠ [])
    (hfree : ¬first :: tail <:+: part) {rest : List Char} (hrest : ∀ c ∈ rest.head?, c = first) :
    ¬first :: tail <+: part ++ rest := by
  obtain ⟨c, part, rfl⟩ := List.exists_cons_of_ne_nil hne
  rw [List.cons_append, List.cons_prefix_cons]
  rintro ⟨rfl, htail⟩
  apply hfree
  apply List.IsPrefix.isInfix
  refine List.cons_prefix_cons.mpr ⟨rfl, ?_⟩
  cases rest with
  | nil => simpa using htail
  | cons d more =>
    obtain rfl : d = first := hrest d rfl
    exact prefix_of_prefix_append_cons hfirst htail

theorem between_append (hfirst : first ∉ tail) {part : List Char}
    (hfree : ¬first :: tail <:+: part) {rest : List Char} (hrest : ∀ c ∈ rest.head?, c = first) :
    between (first :: tail) 0 (part ++ rest) =
      (between (first :: tail) 0 rest).modifyHead (part ++ ·) := by
  obtain ⟨head, more, hcut⟩ := List.exists_cons_of_ne_nil (between_ne_nil (first :: tail) 0 rest)
  rw [hcut, List.modifyHead_cons]
  induction part with
  | nil => exact hcut
  | cons c part ih =>
    have hpart : ¬first :: tail <:+: part :=
      fun h => hfree (h.trans (List.suffix_cons c part).isInfix)
    have hstart : ¬(first :: tail).isPrefixOf (c :: (part ++ rest)) = true := by
      rw [List.isPrefixOf_iff_prefix]
      exact not_prefix_append hfirst (by simp) hfree hrest
    rw [List.cons_append, between, if_neg hstart, ih hpart]
    rfl

theorem between_pattern_append (first : Char) (tail rest : List Char) :
    between (first :: tail) 0 (first :: tail ++ rest) = [] :: between (first :: tail) 0 rest := by
  have hstart : (first :: tail).isPrefixOf (first :: (tail ++ rest)) = true :=
    List.isPrefixOf_iff_prefix.mpr (List.prefix_append (first :: tail) rest)
  rw [List.cons_append, between, if_pos hstart, between_eq_drop, List.length_cons,
    Nat.add_sub_cancel, List.drop_left]

theorem IsCut.eq_between (hfirst : first ∉ tail) {parts : List (List Char)} {text : List Char}
    (h : IsCut (first :: tail) text parts) : parts = between (first :: tail) 0 text := by
  obtain ⟨hne, rfl, hfree⟩ := h
  induction parts with
  | nil => exact absurd rfl hne
  | cons part rest ih =>
    rw [List.forall_mem_cons] at hfree
    cases rest with
    | nil =>
      have hlast := @between_append first tail hfirst part hfree.1 [] (by simp)
      simpa [between] using hlast.symm
    | cons next more =>
      rw [List.intercalate_cons_cons, List.append_assoc, between_append hfirst hfree.1 (by simp),
        between_pattern_append, ← ih (by simp) hfree.2]
      simp

theorem isCut_iff (hfirst : first ∉ tail) {parts : List (List Char)} {text : List Char} :
    IsCut (first :: tail) text parts ↔ parts = between (first :: tail) 0 text := by
  constructor
  · exact fun h => h.eq_between hfirst
  · rintro rfl
    exact isCut_between (by simp) text

end Chars

/-! ### Quoting and filling -/

theorem QuoteStyle.toList_inject (style : QuoteStyle) (template id : String) :
    (style.inject template id).toList =
      List.intercalate (style.quote id).toList (Chars.between "%1".toList 0 template.toList) := by
  rw [inject, Text.replace, String.toList_ofList, Chars.replace, Chars.replaceAfter_eq]

theorem QuoteStyle.toList_quote (style : QuoteStyle) (raw : String) :
    (style.quote raw).toList = Chars.quote style.delimiter raw.toList := by
  rw [quote, String.toList_ofList]

theorem QuoteStyle.readLiteral_quote (style : QuoteStyle)
    (h : Chars.IsDelimiter style.delimiter) (raw : String) (behind : List Char) :
    Chars.readLiteral style.delimiter ((style.quote raw).toList ++ behind) =
      some (raw.toList, behind) := by
  rw [toList_quote]
  exact Chars.readLiteral_quote h raw.toList behind

theorem QuoteStyle.quote_injective (style : QuoteStyle) (h : Chars.IsDelimiter style.delimiter) :
    Function.Injective style.quote := by
  intro raw other heq
  have hraw := style.readLiteral_quote h raw []
  rw [heq, style.readLiteral_quote h other [], Option.some.injEq, Prod.mk.injEq] at hraw
  exact String.toList_inj.mp hraw.1.symm

theorem literals_are_read_back (style : QuoteStyle) (h : Chars.IsDelimiter style.delimiter) :
    (∀ (raw : String) (behind : List Char),
      Chars.readLiteral style.delimiter ((style.quote raw).toList ++ behind) =
        some (raw.toList, behind)) ∧
    (∀ raw : String, Chars.Sealed style.delimiter (style.quote raw).toList) ∧
    Function.Injective style.quote ∧
    ∀ template id : String, ∃ parts,
      (∀ other, Chars.IsCut ['%', '1'] template.toList other ↔ other = parts) ∧
      (style.inject template id).toList = List.intercalate (style.quote id).toList parts := by
  refine ⟨style.readLiteral_quote h, fun raw => ?_, style.quote_injective h, fun template id => ?_⟩
  · rw [style.toList_quote]
    exact Chars.sealed_quote h raw.toList
  · refine ⟨Chars.between ['%', '1'] 0 template.toList, fun other => ?_,
      style.toList_inject template id⟩
    exact Chars.isCut_iff (by decide)

/-- An id that has a mark and what ends a literal, in a template with percent signs of its own. -/
theorem literal_with_marks_is_read_back :
    let style : QuoteStyle := {}
    let id := "%1\"\x1b0"
    Chars.IsDelimiter style.delimiter ∧
      Chars.readLiteral '"' ((style.quote id).toList ++ ['"']) = some (id.toList, ['"']) ∧
      Chars.Sealed '"' (style.quote id).toList ∧ style.quote id ≠ style.quote "%1" ∧
      (style.inject "%%1(%1%" id).toList =
        ['%'] ++ (style.quote id).toList ++ ['('] ++ (style.quote id).toList ++ ['%'] := by
  intro style id
  have hdelimiter : Chars.IsDelimiter style.delimiter := by decide
  obtain ⟨hread, hsealed, hinjective, hfill⟩ := literals_are_read_back style hdelimiter
  obtain ⟨parts, hparts, hinject⟩ := hfill "%%1(%1%" id
  have hcut : Chars.IsCut ['%', '1'] "%%1(%1%".toList [['%'], ['('], ['%']] :=
    ⟨by decide, by decide, by decide⟩
  rw [← (hparts _).mp hcut] at hinject
  refine ⟨hdelimiter, hread id ['"'], hsealed id, hinjective.ne (by decide), ?_⟩
  simpa [List.intercalate_cons_cons] using hinject

end BlockSynth
