import BlockSynth.Proofs.Name.Registry
import BlockSynth.Proofs.Text.Mention
import BlockSynth.Proofs.Zig.Template

/-! # What the text of a helper mentions

A helper is its template with the name written for every mark and other blanks at the start of its
lines. A word without blanks that the template does not mention can then come in with the name
alone, and a name is the key and perhaps a numeral.
-/
namespace BlockSynth

namespace Chars

variable {word text : List Char}

/-! ### Other blanks -/

theorem leadingSteps_suffix (line : List Char) : (leadingSteps line).2 <:+ line := by
  fun_induction leadingSteps line with
  | case1 rest steps line heq ih =>
    rw [heq] at ih
    exact ih.trans ((List.suffix_cons ' ' rest).trans (List.suffix_cons ' ' (' ' :: rest)))
  | case2 line _ => exact List.suffix_rfl

theorem infix_of_infix_reindentLines (hword : word ≠ []) (hline : '\n' ∉ word) {unit : List Char}
    (hunit : ∀ c ∈ unit, c ∉ word) (h : word <:+: reindentLines unit text) : word <:+: text := by
  obtain ⟨line, hmem, hfound⟩ := infix_of_infix_joinLines hword hline h
  obtain ⟨old, hold, rfl⟩ := List.mem_map.mp hmem
  have hlead : ∀ c ∈ (List.replicate (leadingSteps old).1 unit).flatten, c ∉ word := by
    intro c hc
    obtain ⟨step, hstep, hcstep⟩ := List.mem_flatten.mp hc
    exact hunit c (List.eq_of_mem_replicate hstep ▸ hcstep)
  have hrest : word <:+: (leadingSteps old).2 := infix_of_infix_append hword hlead hfound
  rw [← joinLines_splitLines text]
  exact hrest.trans ((leadingSteps_suffix old).isInfix.trans (infix_joinLines hold))

end Chars

namespace Zig

/-! ### Helpers -/

/-- The word with which a helper cannot but be named. -/
def NamedFor (key name : List Char) : Prop :=
  ∃ numeral, (∀ c ∈ numeral, c.isDigit = true) ∧ name = Chars.sanitize key ++ numeral

theorem namedFor_distinct (names : Registry) (key : String) :
    NamedFor key.toList (names.distinct key).toList := by
  obtain ⟨k, -, hk, -⟩ := names.distinct_eq_candidate key
  rw [hk]
  cases k with
  | zero => exact ⟨[], by simp, by simp [Registry.candidate, Text.sanitize]⟩
  | succ k =>
    refine ⟨Nat.toDigits 10 (k + 2), fun c hc => ?_, by simp [Registry.candidate, Text.sanitize]⟩
    exact Nat.isDigit_of_mem_toDigits (by omega) (by omega) hc

/-- What a helper with this key and template does not mention, by whatever name and indentation. -/
def Omits (word key template : String) : Prop :=
  ∀ unit name : String, IsIndent unit.toList → NamedFor key.toList name.toList →
    ¬Mentions word (realizeTemplate unit template name)

/-- Characters that come in with neither blanks nor numerals. -/
structure IsSolid (word : List Char) : Prop where
  ne_nil : word ≠ []
  solid : ∀ c ∈ word, c ≠ ' ' ∧ c ≠ '\t' ∧ c ≠ '\n' ∧ c.isDigit = false

def isSolid (word : List Char) : Bool :=
  !word.isEmpty && word.all fun c => c != ' ' && c != '\t' && c != '\n' && !c.isDigit

theorem isSolid_iff {word : List Char} : isSolid word = true ↔ IsSolid word := by
  constructor
  · intro h
    simp only [isSolid, Bool.and_eq_true, List.all_eq_true, bne_iff_ne, Bool.not_eq_true'] at h
    exact ⟨by simpa using h.1, fun c hc =>
      ⟨(h.2 c hc).1.1.1, (h.2 c hc).1.1.2, (h.2 c hc).1.2, (h.2 c hc).2⟩⟩
  · rintro ⟨hne, hsolid⟩
    simp only [isSolid, Bool.and_eq_true, List.all_eq_true, bne_iff_ne, Bool.not_eq_true']
    exact ⟨by simpa using hne, fun c hc =>
      ⟨⟨⟨(hsolid c hc).1, (hsolid c hc).2.1⟩, (hsolid c hc).2.2.1⟩, (hsolid c hc).2.2.2⟩⟩

theorem IsSolid.infix_of_namedFor {word key name : List Char} (h : IsSolid word)
    (hname : NamedFor key name) (hfound : word <:+: name) : word <:+: Chars.sanitize key := by
  obtain ⟨numeral, hdigits, rfl⟩ := hname
  cases numeral with
  | nil => simpa using hfound
  | cons digit rest =>
    rw [List.forall_mem_cons] at hdigits
    have hnot : ∀ c, c.isDigit = true → c ∉ word := by
      intro c hc hmem
      simp [(h.solid c hmem).2.2.2] at hc
    rcases Chars.infix_append_cons (hnot digit hdigits.1) hfound with hkey | hrest
    · exact hkey
    · rw [← List.append_nil rest] at hrest
      have hnil := Chars.infix_of_infix_append h.ne_nil (fun c hc => hnot c (hdigits.2 c hc)) hrest
      exact absurd (List.infix_nil.mp hnil) h.ne_nil

theorem omits_of_verbatim {word key template : String} {wordChars keyChars chars : List Char}
    [hw : Verbatim word wordChars] [hk : Verbatim key keyChars] [ht : Verbatim template chars]
    (h : (isSolid wordChars && !Chars.occurs wordChars (Chars.sanitize keyChars) &&
      (Chars.between markChars 0 (Chars.trim chars)).all (Chars.shuns wordChars)) = true) :
    Omits word key template := by
  simp only [Bool.and_eq_true, isSolid_iff, List.all_eq_true, Chars.shuns_iff] at h
  obtain ⟨⟨hsolid, hfree⟩, hparts⟩ := h
  have hkey : ¬wordChars <:+: Chars.sanitize keyChars := by
    rw [← Chars.occurs_iff, Bool.not_eq_true]
    simpa using hfree
  intro unit name hunit hname hmention
  unfold Mentions at hmention
  rw [hw.eq] at hmention
  have hmarked : wordChars <:+: (Text.replace helperMark name (Text.trim template)).toList := by
    unfold realizeTemplate Text.reindent at hmention
    split at hmention
    · exact hmention
    · rw [String.toList_ofList] at hmention
      refine Chars.infix_of_infix_reindentLines hsolid.ne_nil ?_ ?_ hmention
      · exact fun hmem => (hsolid.solid _ hmem).2.2.1 rfl
      · rintro c hc hmem
        exact (hunit c hc).elim (hsolid.solid c hmem).1 (hsolid.solid c hmem).2.1
  have hreplaced : (Text.replace helperMark name (Text.trim template)).toList =
      List.intercalate name.toList (Chars.between markChars 0 (Chars.trim chars)) := by
    simp [Text.replace, Text.trim, Chars.replace, toList_helperMark, ht.eq, Chars.replaceAfter_eq]
  rw [hreplaced] at hmarked
  have hinname := Chars.Shuns.infix_intercalate hparts hsolid.ne_nil hmarked
  rw [hk.eq] at hname
  exact hkey (hsolid.infix_of_namedFor hname hinname)

theorem mentions_of_verbatim {word unit template name : String}
    {wordChars unitChars chars nameChars : List Char} [hw : Verbatim word wordChars]
    [hu : Verbatim unit unitChars] [ht : Verbatim template chars]
    [hn : Verbatim name nameChars] (hunit : unit ≠ "  ")
    (h : Chars.occurs wordChars (Chars.reindentLines unitChars
      (Chars.replace markChars nameChars (Chars.trim chars))) = true) :
    Mentions word (realizeTemplate unit template name) := by
  unfold Mentions realizeTemplate Text.reindent
  rw [if_neg hunit]
  simpa [Text.replace, Text.trim, toList_helperMark, hw.eq, hu.eq, ht.eq, hn.eq]
    using Chars.occurs_iff.mp h

end Zig

end BlockSynth
