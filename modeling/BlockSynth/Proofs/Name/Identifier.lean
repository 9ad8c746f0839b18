import BlockSynth.Name.Identifier

/-! # Sanitized names are identifiers

Whatever a name is made of, sanitizing it leaves a letter or underscore followed by word characters,
and so does every numeral behind it. A name that is an identifier already is left alone, so names
are sanitized once and for all.
-/
namespace BlockSynth.Chars

theorem isAlpha_iff {c : Char} :
    c.isAlpha = true ↔ 65 ≤ c.toNat ∧ c.toNat ≤ 90 ∨ 97 ≤ c.toNat ∧ c.toNat ≤ 122 := by
  show (decide (65 ≤ c.val ∧ c.val ≤ 90) ||
    (decide (97 ≤ c.val) && decide (c.val ≤ 122))) = true ↔ _
  simp only [Bool.or_eq_true, Bool.and_eq_true, decide_eq_true_eq, UInt32.le_iff_toNat_le]
  rfl

theorem isWordChar_of_isDigit {c : Char} (h : c.isDigit = true) : isWordChar c = true := by
  simp [isWordChar, Char.isAlphanum, h]

theorem isWordChar_of_isIdentifierStart {c : Char} (h : isIdentifierStart c = true) :
    isWordChar c = true := by
  simp only [isIdentifierStart, Bool.or_eq_true] at h
  rcases h with h | h
  · simp [isWordChar, Char.isAlphanum, h]
  · simp [isWordChar, h]

/-- A word character that cannot start an identifier is a digit. -/
theorem isDigit_of_isWordChar {c : Char} (hw : isWordChar c = true)
    (hs : isIdentifierStart c = false) : c.isDigit = true := by
  simp only [isIdentifierStart, Bool.or_eq_false_iff] at hs
  simpa [isWordChar, Char.isAlphanum, hs.1, hs.2] using hw

theorem isDigit_of_isIdentifierStart {c : Char} (h : isIdentifierStart c = true) :
    c.isDigit = false := by
  refine Bool.eq_false_iff.mpr fun hdigit => ?_
  simp only [isIdentifierStart, Bool.or_eq_true, beq_iff_eq] at h
  rcases h with h | rfl
  · have halpha := isAlpha_iff.mp h
    have hbounds : 48 ≤ c.toNat ∧ c.toNat ≤ 57 := Char.isDigit_iff_toNat.mp hdigit
    omega
  · exact absurd hdigit (by decide)

theorem isWordChar_upperHexDigit {n : Nat} (h : n < 16) : isWordChar (upperHexDigit n) = true := by
  have hall : ∀ k : Fin 16, isWordChar (upperHexDigit k.val) = true := by decide
  exact hall ⟨n, h⟩

theorem escapeByte_all_isWordChar (byte : UInt8) : (escapeByte byte).all isWordChar = true := by
  have hlt := byte.toNat_lt
  have hhigh : isWordChar (upperHexDigit (byte.toNat / 16)) = true :=
    isWordChar_upperHexDigit (by omega)
  have hlow : isWordChar (upperHexDigit (byte.toNat % 16)) = true :=
    isWordChar_upperHexDigit (by omega)
  have hmark : isWordChar '_' = true := by decide
  simp [escapeByte, hhigh, hlow, hmark]

theorem sanitizeChar_all_isWordChar (c : Char) : (sanitizeChar c).all isWordChar = true := by
  unfold sanitizeChar
  split
  · rename_i h
    simp [h]
  · split
    · decide
    · rw [List.all_flatMap]
      exact List.all_eq_true.mpr fun byte _ => escapeByte_all_isWordChar byte

theorem sanitizeChar_ne_nil (c : Char) : sanitizeChar c ≠ [] := by
  unfold sanitizeChar
  split
  · simp
  · split
    · simp
    · obtain ⟨byte, rest, hbytes⟩ := List.exists_cons_of_ne_nil (@String.utf8EncodeChar_ne_nil c)
      simp [hbytes, escapeByte]

theorem isIdentifier_guardStart {text : List Char} (hne : text ≠ [])
    (hall : text.all isWordChar = true) : isIdentifier (guardStart text) = true := by
  obtain ⟨c, rest, rfl⟩ := List.exists_cons_of_ne_nil hne
  unfold guardStart
  split
  · have hmy : isWordChar 'y' = true ∧ isWordChar '_' = true := by decide
    have hm : isIdentifierStart 'm' = true := by decide
    simp only [List.cons_append, List.nil_append, isIdentifier, hm, Bool.true_and]
    rw [List.all_cons, List.all_cons, hall, hmy.1, hmy.2]
    rfl
  · rename_i hdigit
    simp only [List.all_cons, Bool.and_eq_true] at hall
    simp only [isIdentifier, hall.2, Bool.and_true]
    cases hs : isIdentifierStart c with
    | true => rfl
    | false => exact absurd (isDigit_of_isWordChar hall.1 hs) (by simpa using hdigit)

theorem isIdentifier_sanitize (name : List Char) : isIdentifier (sanitize name) = true := by
  cases name with
  | nil => decide
  | cons c rest =>
    refine isIdentifier_guardStart ?_ ?_
    · simp [sanitizeChar_ne_nil]
    · rw [List.all_flatMap]
      exact List.all_eq_true.mpr fun d _ => sanitizeChar_all_isWordChar d

theorem isIdentifier_append {text more : List Char} (ht : isIdentifier text = true)
    (hm : more.all isWordChar = true) : isIdentifier (text ++ more) = true := by
  cases text with
  | nil => simp [isIdentifier] at ht
  | cons c rest =>
    simp only [isIdentifier, Bool.and_eq_true] at ht
    simp [isIdentifier, ht.1, ht.2, hm]

theorem isIdentifier_cons {c : Char} {rest : List Char} :
    isIdentifier (c :: rest) = true ↔ isIdentifierStart c = true ∧ rest.all isWordChar = true := by
  rw [isIdentifier, Bool.and_eq_true]

theorem flatMap_sanitizeChar {text : List Char} (h : text.all isWordChar = true) :
    text.flatMap sanitizeChar = text := by
  induction text with
  | nil => rfl
  | cons c rest ih =>
    rw [List.all_cons, Bool.and_eq_true] at h
    have hword : sanitizeChar c = [c] := if_pos h.1
    rw [List.flatMap_cons, hword, ih h.2, List.singleton_append]

theorem sanitize_of_isIdentifier {name : List Char} (h : isIdentifier name = true) :
    sanitize name = name := by
  cases name with
  | nil => simp [isIdentifier] at h
  | cons c rest =>
    obtain ⟨hstart, hrest⟩ := isIdentifier_cons.mp h
    have hword : (c :: rest).all isWordChar = true := by
      rw [List.all_cons, isWordChar_of_isIdentifierStart hstart, hrest]
      rfl
    have hdigit : ((c :: rest).head?.any Char.isDigit) = false :=
      isDigit_of_isIdentifierStart hstart
    calc sanitize (c :: rest)
        = guardStart ((c :: rest).flatMap sanitizeChar) := rfl
      _ = guardStart (c :: rest) := by rw [flatMap_sanitizeChar hword]
      _ = c :: rest := by rw [guardStart, hdigit, if_neg Bool.false_ne_true]

theorem toDigits_all_isWordChar (n : Nat) : (Nat.toDigits 10 n).all isWordChar = true :=
  List.all_eq_true.mpr fun _ hc =>
    isWordChar_of_isDigit (Nat.isDigit_of_mem_toDigits (by omega) (by omega) hc)

end BlockSynth.Chars

namespace BlockSynth.Text

open Chars

theorem toList_sanitize (name : String) : (sanitize name).toList = Chars.sanitize name.toList := by
  rw [sanitize, String.toList_ofList]

/-- Sanitizing is a retraction of all names onto the identifiers: it ends among them, they are the
names that it leaves as they are, and so a second pass changes nothing. -/
theorem sanitizing_retracts_onto_identifiers (name : String) :
    isIdentifier (sanitize name).toList = true ∧
      (sanitize name = name ↔ isIdentifier name.toList = true) ∧
      sanitize (sanitize name) = sanitize name := by
  have hidentifier : ∀ name : String, isIdentifier (sanitize name).toList = true := by
    intro name
    rw [toList_sanitize]
    exact isIdentifier_sanitize name.toList
  have hfixed : ∀ {name : String}, isIdentifier name.toList = true → sanitize name = name := by
    intro name h
    rw [sanitize, sanitize_of_isIdentifier h, String.ofList_toList]
  refine ⟨hidentifier name, ⟨fun h => ?_, hfixed⟩, hfixed (hidentifier name)⟩
  rw [← h]
  exact hidentifier name

/-- A digit in front, a blank and a character of three bytes. -/
example : sanitize "2 €" = "my_2__E2_82_AC" := by decide

end BlockSynth.Text
