import BlockSynth.Text.Quote
import Mathlib.Data.List.Basic

/-! # Literals are read back

A reader of string literals knows the escapes of the backslash, of the delimiter, of line breaks and
tabs, and those by two hexadecimal digits. It stops at the first delimiter that no backslash
escapes. Quoted text is read back as it was, whatever stands behind the literal, as long as the
delimiter begins no other escape.
-/
namespace BlockSynth.Chars

/-! ### Reading -/

def hexDigit? (c : Char) : Option Nat :=
  if c.isDigit then some (c.toNat - '0'.toNat)
  else if 'a' ≤ c ∧ c ≤ 'f' then some (c.toNat - 'a'.toNat + 10)
  else if 'A' ≤ c ∧ c ≤ 'F' then some (c.toNat - 'A'.toNat + 10)
  else none

/-- What a backslash and one more character stand for. -/
def unescape? (delimiter c : Char) : Option Char :=
  if c = '\\' ∨ c = delimiter then some c
  else if c = 'n' then some '\n'
  else if c = 'r' then some '\r'
  else if c = 't' then some '\t'
  else none

/-- The text of a literal from behind its opening delimiter on, and what stands behind
the closing one. -/
def readBody (delimiter : Char) : List Char → Option (List Char × List Char)
  | [] => none
  | '\\' :: 'x' :: high :: low :: rest => do
    let value := 16 * (← hexDigit? high) + (← hexDigit? low)
    let (text, behind) ← readBody delimiter rest
    return (Char.ofNat value :: text, behind)
  | '\\' :: c :: rest => do
    let meant ← unescape? delimiter c
    let (text, behind) ← readBody delimiter rest
    return (meant :: text, behind)
  | c :: rest =>
    if c = delimiter then some ([], rest)
    else do
      let (text, behind) ← readBody delimiter rest
      return (c :: text, behind)

def readLiteral (delimiter : Char) : List Char → Option (List Char × List Char)
  | [] => none
  | c :: rest => if c = delimiter then readBody delimiter rest else none

/-- The characters of a body that no backslash escapes. -/
def bare : List Char → List Char
  | [] => []
  | '\\' :: _ :: rest => bare rest
  | c :: rest => c :: bare rest

/-- Characters that no escape of another character has. -/
def IsDelimiter (c : Char) : Prop :=
  c ∉ ['\\', 'n', 'r', 't', 'x'] ∧ hexDigit? c = none

instance (c : Char) : Decidable (IsDelimiter c) :=
  inferInstanceAs (Decidable (_ ∧ _))

variable {delimiter : Char}

/-! ### Escapes -/

theorem hexDigit?_digitChar : ∀ n < 16, hexDigit? n.digitChar = some n := by
  decide

theorem toNat_lt_of_isControl {c : Char} (h : isControl c = true) : c.toNat < 128 := by
  simp only [isControl, Bool.or_eq_true, decide_eq_true_eq, beq_iff_eq] at h
  omega

theorem IsDelimiter.ne (h : IsDelimiter delimiter)
    {c : Char} (hc : c ∈ ['\\', 'n', 'r', 't', 'x']) :
    delimiter ≠ c :=
  fun heq => h.1 (heq ▸ hc)

theorem IsDelimiter.ne_digitChar (h : IsDelimiter delimiter) {n : Nat} (hn : n < 16) :
    n.digitChar ≠ delimiter := by
  intro heq
  have hdigit := hexDigit?_digitChar n hn
  rw [heq, h.2] at hdigit
  simp at hdigit

/-- The ways to write a character in a literal. -/
inductive Escape (delimiter c : Char) : List Char → Prop
  | plain : c ≠ '\\' → c ≠ delimiter → isControl c = false → Escape delimiter c [c]
  | pair {letter : Char} : unescape? delimiter letter = some c → letter ≠ 'x' →
    letter = delimiter ∨ isControl letter = false → Escape delimiter c ['\\', letter]
  | byte : isControl c = true → Escape delimiter c ('\\' :: 'x' :: hexByte c.toNat)

theorem IsDelimiter.escape_letter (h : IsDelimiter delimiter) {letter c : Char}
    (hmem : (letter, c) ∈ [('n', '\n'), ('r', '\r'), ('t', '\t')]) :
    Escape delimiter c ['\\', letter] := by
  have hn : 'n' ≠ delimiter := (h.ne (by simp)).symm
  have hr : 'r' ≠ delimiter := (h.ne (by simp)).symm
  have ht : 't' ≠ delimiter := (h.ne (by simp)).symm
  simp only [List.mem_cons, Prod.mk.injEq, List.not_mem_nil, or_false] at hmem
  rcases hmem with ⟨rfl, rfl⟩ | ⟨rfl, rfl⟩ | ⟨rfl, rfl⟩
  · exact .pair (by simp [unescape?, hn]) (by decide) (.inr (by decide))
  · exact .pair (by simp [unescape?, hr]) (by decide) (.inr (by decide))
  · exact .pair (by simp [unescape?, ht]) (by decide) (.inr (by decide))

/-- Every character is written in one of these ways. -/
theorem escape_cases (h : IsDelimiter delimiter) (c : Char) :
    Escape delimiter c (escape delimiter c) := by
  unfold escape
  by_cases hslash : c = '\\'
  · subst hslash
    exact .pair (by simp [unescape?]) (by decide) (.inr (by decide))
  rw [if_neg hslash]
  by_cases hline : c = '\n'
  · rw [if_pos hline]
    exact h.escape_letter (by simp [hline])
  rw [if_neg hline]
  by_cases hreturn : c = '\r'
  · rw [if_pos hreturn]
    exact h.escape_letter (by simp [hreturn])
  rw [if_neg hreturn]
  by_cases htab : c = '\t'
  · rw [if_pos htab]
    exact h.escape_letter (by simp [htab])
  rw [if_neg htab]
  by_cases hdelimiter : c = delimiter
  · subst hdelimiter
    rw [if_pos rfl]
    exact .pair (by simp [unescape?]) (h.ne (by simp)) (.inl rfl)
  rw [if_neg hdelimiter]
  by_cases hcontrol : isControl c = true
  · rw [if_pos hcontrol]
    exact .byte hcontrol
  · rw [if_neg hcontrol]
    exact .plain hslash hdelimiter (by simpa using hcontrol)

/-! ### Quoting and reading -/

variable {written : List Char} {c : Char}

theorem Escape.readBody_append (hw : Escape delimiter c written) (rest : List Char) :
    readBody delimiter (written ++ rest) =
      (readBody delimiter rest).map fun result => (c :: result.1, result.2) := by
  cases hw with
  | plain hslash hdelimiter hcontrol =>
    cases hrest : readBody delimiter rest <;> simp [readBody, hslash, hdelimiter, hrest]
  | pair hmeant hx hcontrol =>
    cases hrest : readBody delimiter rest <;> simp [readBody, hmeant, hx, hrest]
  | byte hcontrol =>
    have hbound := toNat_lt_of_isControl hcontrol
    have hhigh := hexDigit?_digitChar (c.toNat / 16) (by omega)
    have hlow := hexDigit?_digitChar (c.toNat % 16) (by omega)
    have hvalue : Char.ofNat (16 * (c.toNat / 16) + c.toNat % 16) = c := by
      rw [Nat.div_add_mod, Char.ofNat_toNat]
    cases hrest : readBody delimiter rest <;> simp [readBody, hexByte, hhigh, hlow, hvalue, hrest]

theorem readBody_escapes (h : IsDelimiter delimiter) (raw behind : List Char) :
    readBody delimiter (raw.flatMap (escape delimiter) ++ delimiter :: behind) =
      some (raw, behind) := by
  induction raw with
  | nil =>
    have hslash : delimiter ≠ '\\' := h.ne (by simp)
    simp [readBody, hslash]
  | cons c raw ih =>
    rw [List.flatMap_cons, List.append_assoc, (escape_cases h c).readBody_append,
      ih, Option.map_some]

/-- The reader stops behind the closing delimiter, with the text that has been quoted. -/
theorem readLiteral_quote (h : IsDelimiter delimiter) (raw behind : List Char) :
    readLiteral delimiter (quote delimiter raw ++ behind) = some (raw, behind) := by
  have hread := readBody_escapes h raw behind
  simp [readLiteral, quote, hread]

/-! ### What a literal holds -/

theorem exists_digit_of_mem_hexByte {n : Nat} (hn : n < 128) {d : Char} (hd : d ∈ hexByte n) :
    ∃ m < 16, d = m.digitChar := by
  simp only [hexByte, List.mem_cons, List.not_mem_nil, or_false] at hd
  rcases hd with rfl | rfl
  · exact ⟨n / 16, by omega, rfl⟩
  · exact ⟨n % 16, by omega, rfl⟩

theorem Escape.eq_of_isControl (hw : Escape delimiter c written) {d : Char} (hmem : d ∈ written)
    (hd : isControl d = true) : d = delimiter := by
  have hplain : isControl d ≠ false := by simp [hd]
  cases hw with
  | plain _ _ hcontrol =>
    obtain rfl := List.mem_singleton.mp hmem
    exact absurd hcontrol hplain
  | @pair letter _ _ hletter =>
    simp only [List.mem_cons, List.not_mem_nil, or_false] at hmem
    rcases hmem with rfl | rfl
    · exact absurd rfl hplain
    · exact hletter.resolve_right hplain
  | byte hcontrol =>
    simp only [List.mem_cons] at hmem
    rcases hmem with rfl | rfl | hdigit
    · exact absurd rfl hplain
    · exact absurd rfl hplain
    · have hdigits : ∀ n < 16, isControl n.digitChar = false := by decide
      obtain ⟨n, hn, rfl⟩ := exists_digit_of_mem_hexByte (toNat_lt_of_isControl hcontrol) hdigit
      exact absurd (hdigits n hn) hplain

/-- No escape leaves a delimiter without its backslash. -/
theorem Escape.mem_bare_append (hw : Escape delimiter c written) (h : IsDelimiter delimiter)
    {rest : List Char} (hmem : delimiter ∈ bare (written ++ rest)) : delimiter ∈ bare rest := by
  cases hw with
  | plain hslash hdelimiter _ =>
    have hbare : bare ([c] ++ rest) = c :: bare rest := by simp [bare, hslash]
    rw [hbare] at hmem
    exact (List.mem_cons.mp hmem).resolve_left (Ne.symm hdelimiter)
  | pair _ _ _ => exact hmem
  | byte hcontrol =>
    have hbound := toNat_lt_of_isControl hcontrol
    have hdigits : ∀ n < 16, n.digitChar ≠ '\\' := by decide
    have hhigh := hdigits (c.toNat / 16) (by omega)
    have hlow := hdigits (c.toNat % 16) (by omega)
    have hbare : bare ('\\' :: 'x' :: hexByte c.toNat ++ rest) = hexByte c.toNat ++ bare rest := by
      simp [hexByte, bare, hhigh, hlow]
    rw [hbare, List.mem_append] at hmem
    refine hmem.resolve_left fun hdigit => ?_
    obtain ⟨n, hn, heq⟩ := exists_digit_of_mem_hexByte hbound hdigit
    exact h.ne_digitChar hn heq.symm

/-- A literal in which only the delimiters at its ends are bare, and no character but
the delimiter is one of control. -/
structure Sealed (delimiter : Char) (literal : List Char) : Prop where
  ends : ∃ body, literal = delimiter :: (body ++ [delimiter]) ∧ delimiter ∉ bare body
  control : ∀ c ∈ literal, isControl c = true → c = delimiter

theorem not_mem_bare_escapes (h : IsDelimiter delimiter) (raw : List Char) :
    delimiter ∉ bare (raw.flatMap (escape delimiter)) := by
  induction raw with
  | nil => simp [bare]
  | cons c raw ih =>
    intro hmem
    rw [List.flatMap_cons] at hmem
    exact ih ((escape_cases h c).mem_bare_append h hmem)

theorem sealed_quote (h : IsDelimiter delimiter) (raw : List Char) :
    Sealed delimiter (quote delimiter raw) where
  ends := ⟨raw.flatMap (escape delimiter), rfl, not_mem_bare_escapes h raw⟩
  control c hmem hc := by
    simp only [quote, List.mem_cons, List.mem_append, List.mem_flatMap,
      List.not_mem_nil, or_false] at hmem
    rcases hmem with heq | ⟨d, -, hd⟩ | heq
    · exact heq
    · exact (escape_cases h d).eq_of_isControl hd hc
    · exact heq

end BlockSynth.Chars
