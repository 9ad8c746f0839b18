import BlockSynth.Proofs.Name.Identifier
import BlockSynth.Proofs.Number.Numeral
import BlockSynth.Proofs.Zig.Layout
import BlockSynth.Render
import BlockSynth.Zig.Base
import BlockSynth.Zig.Words

/-! # Operands

Identifiers, numbers and string literals are operands that expose no operator at all, so they may
stand at every place. Wrapped code may as well.
-/
namespace BlockSynth.Zig

/-- Code that exposes no operator, and so may stand at every place. -/
abbrev Atom (text : List Char) : Prop :=
  Operand .atomic text

theorem Operand.mono {text : List Char} {rank bound : Rank} (h : Operand rank text)
    (hle : rank.level ≤ bound.level) : Operand bound text :=
  ⟨h.toFits.mono fun _ hrank => hrank.trans hle, h.tame⟩

theorem Atom.operand {text : List Char} (h : Atom text) (bound : Rank) : Operand bound text :=
  Operand.mono h (Nat.zero_le _)

/-! ### Words -/

theorem leads_of_isWordChar {c : Char} (h : Chars.isWordChar c = true) : leads c = true := by
  have hne : ∀ d : Char, Chars.isWordChar d = false → c ≠ d := by
    rintro d hd rfl
    rw [h] at hd
    exact absurd hd (by simp)
  simp [leads, hne '=' (by decide), hne '+' (by decide), hne '/' (by decide)]

theorem Mode.start_of_isWordChar {c : Char} (h : Chars.isWordChar c = true) :
    start c = ([], word [c]) := by
  have hblank : Chars.isBlank c = false := by
    rw [Bool.eq_false_iff]
    intro hc
    rw [isWordChar_of_isBlank hc] at h
    exact absurd h (by simp)
  simp [start, hblank, h]

theorem Mode.run_word_more {first text : List Char} (h : ∀ c ∈ text, Chars.isWordChar c = true) :
    (Mode.word first).run text = some ([], .word (first ++ text)) := by
  induction text generalizing first with
  | nil => simp [run]
  | cons c rest ih =>
    have hc := h c List.mem_cons_self
    have hrest := @ih (first ++ [c]) fun d hd => h d (List.mem_cons_of_mem _ hd)
    simp [run, step, hc, hrest]

theorem Mode.run_word {text : List Char} (hne : text ≠ [])
    (h : ∀ c ∈ text, Chars.isWordChar c = true) :
    code.run text = some ([], .word text) := by
  obtain ⟨c, rest, rfl⟩ := List.exists_cons_of_ne_nil hne
  have hrest := @run_word_more [c] rest fun d hd => h d (List.mem_cons_of_mem _ hd)
  simp [run, step, start_of_isWordChar (h c List.mem_cons_self), hrest]

theorem Scan.read_word (outline : Outline) {text : List Char} (hne : text ≠ [])
    (h : ∀ c ∈ text, Chars.isWordChar c = true) :
    Scan.read (.code, outline) text = some (.word text, outline) := by
  rw [read_eq_run, Mode.run_word hne h]
  rfl

/-- A word that is neither an operator nor leads elsewhere. -/
structure IsPlain (text : List Char) : Prop where
  ne_nil : text ≠ []
  isWordChar : ∀ c ∈ text, Chars.isWordChar c = true
  lookup : operators.lookup (.word text) = none
  isTame : (Token.word text).isTame = true

instance (text : List Char) : Decidable (IsPlain text) :=
  decidable_of_iff (text ≠ [] ∧ text.all Chars.isWordChar ∧ operators.lookup (.word text) = none ∧
      (Token.word text).isTame = true)
    ⟨fun h => ⟨h.1, List.all_eq_true.mp h.2.1, h.2.2.1, h.2.2.2⟩,
      fun h => ⟨h.1, List.all_eq_true.mpr h.2, h.3, h.4⟩⟩

theorem IsPlain.rank? {text : List Char} (h : IsPlain text) (last : Option Token) :
    (Token.word text).rank? last = none := by
  simp [Token.rank?, Token.minus, h.lookup]

theorem IsPlain.exposed_put {text : List Char} (h : IsPlain text) (outline : Outline) :
    (outline.put (.word text)).exposed = outline.exposed := by
  unfold Outline.put
  split
  · simp [h.rank?]
  · rfl

theorem IsPlain.leads {text : List Char} (h : IsPlain text) :
    ∃ c, text.head? = some c ∧ leads c = true := by
  obtain ⟨c, rest, rfl⟩ := List.exists_cons_of_ne_nil h.ne_nil
  exact ⟨c, rfl, leads_of_isWordChar (h.isWordChar c List.mem_cons_self)⟩

theorem IsPlain.tokens_eq {text : List Char} (h : IsPlain text) :
    tokens text = some [.word text] := by
  simp [tokens, Mode.run_word h.ne_nil h.isWordChar, Mode.finish]

theorem IsPlain.atom {text : List Char} (h : IsPlain text)
    (hmute : (Token.word text).isMute = true) :
    Atom text where
  leads := h.leads
  inside outline _ := ⟨.word text, trivial, Scan.read_word outline h.ne_nil h.isWordChar⟩
  outside outline hopened _ := by
    refine ⟨(.word text, outline), trivial, Scan.read_word outline h.ne_nil h.isWordChar,
      by simpa using hopened, ?_⟩
    intro rank hrank
    rw [Scan.settle, h.exposed_put] at hrank
    exact .inl hrank
  tame toks htokens := by
    obtain rfl := Option.some.inj (h.tokens_eq.symm.trans htokens)
    exact List.forall_mem_singleton.mpr (Bool.and_eq_true_iff.mpr ⟨h.isTame, hmute⟩)

theorem Token.isMute_word {text : List Char} :
    (word text).isMute = true ↔ text ≠ ['c', 'o', 'n', 's', 't'] ∧ text ≠ ['v', 'a', 'r'] := by
  simp [isMute, declares, constWord, varWord, colon, bar]

/-! ### Names and numbers -/

theorem lookup_operators_word {text : List Char}
    (h : ∀ word ∈ ["try", "and", "or", "if", "else"], text ≠ word.toList) :
    operators.lookup (.word text) = none := by
  rw [List.lookup_eq_none_iff]
  simp only [List.forall_mem_cons, List.not_mem_nil, false_imp_iff, implies_true, and_true] at h
  obtain ⟨htry, hand, hor, hif, helse⟩ := h
  simp_all [operators, Token.minus, Token.ifWord]

/-- A word that the program can introduce. -/
structure IsName (word : String) : Prop where
  isIdentifier : Chars.isIdentifier word.toList = true
  not_mem : word ∉ reservedWords

/-- No name is one of the words that only keywords are. -/
theorem IsName.ne_keyword {word : String} (h : IsName word) {other : List Char}
    (hother : other ∈ keywords.map String.toList) : word.toList ≠ other := by
  rintro rfl
  obtain ⟨keyword, hkeyword, heq⟩ := List.mem_map.mp hother
  obtain rfl := String.toList_inj.mp heq
  exact h.not_mem (List.mem_append_left _ (List.mem_append_left _ hkeyword))

theorem controlWords_subset : controlWords ⊆ keywords.map String.toList := by
  decide

theorem IsName.isPlain {word : String} (h : IsName word) : IsPlain word.toList where
  ne_nil := by
    intro hnil
    have hword := h.isIdentifier
    simp [hnil, Chars.isIdentifier] at hword
  isWordChar := by
    have hword := h.isIdentifier
    cases hlist : word.toList with
    | nil => simp
    | cons c rest =>
      simp only [hlist, Chars.isIdentifier, Bool.and_eq_true, List.all_eq_true] at hword
      intro d hd
      rcases List.mem_cons.mp hd with rfl | hd
      · exact Chars.isWordChar_of_isIdentifierStart hword.1
      · exact hword.2 d hd
  lookup := by
    have hkeywords : ∀ operator ∈ ["try", "and", "or", "if", "else"],
        operator.toList ∈ keywords.map String.toList := by decide
    exact lookup_operators_word fun operator hoperator =>
      h.ne_keyword (hkeywords operator hoperator)
  isTame := Token.isTame_word.mpr fun hmem => h.ne_keyword (controlWords_subset hmem) rfl

theorem IsName.isWord {word : String} (h : IsName word) : Text.isWord word = true := by
  unfold Text.isWord Chars.isWord
  simpa [h.isPlain.ne_nil] using h.isPlain.isWordChar

theorem IsName.isMute {word : String} (h : IsName word) : (Token.word word.toList).isMute = true :=
  Token.isMute_word.mpr ⟨h.ne_keyword (by decide), h.ne_keyword (by decide)⟩

theorem IsName.atom {word : String} (h : IsName word) : Atom word.toList :=
  h.isPlain.atom h.isMute

/-- No number is a word that begins with a letter. -/
theorem ne_of_isDigits {text word : List Char} (h : Chars.isDigits text = true)
    (hletter : word.head?.any Char.isDigit = false) : text ≠ word := by
  rintro rfl
  rw [Chars.isDigits_iff] at h
  obtain ⟨c, rest, rfl⟩ := List.exists_cons_of_ne_nil h.1
  simp [h.2 c List.mem_cons_self] at hletter

theorem isPlain_of_isDigits {text : List Char} (h : Chars.isDigits text = true) : IsPlain text where
  ne_nil := (Chars.isDigits_iff.mp h).1
  isWordChar c hc := Chars.isWordChar_of_isDigit ((Chars.isDigits_iff.mp h).2 c hc)
  lookup := by
    have hletter : ∀ operator ∈ ["try", "and", "or", "if", "else"],
        operator.toList.head?.any Char.isDigit = false := by decide
    exact lookup_operators_word fun operator hoperator =>
      ne_of_isDigits h (hletter operator hoperator)
  isTame := by
    have hletter : ∀ word ∈ controlWords, word.head?.any Char.isDigit = false := by decide
    exact Token.isTame_word.mpr fun hmem => ne_of_isDigits h (hletter _ hmem) rfl

theorem atom_of_isDigits {text : List Char} (h : Chars.isDigits text = true) : Atom text :=
  (isPlain_of_isDigits h).atom
    (Token.isMute_word.mpr ⟨ne_of_isDigits h (by decide), ne_of_isDigits h (by decide)⟩)

theorem atom_of_numeral {text : List Char} {decimal : Decimal} (h : Chars.Numeral text decimal) :
    Atom text := by
  cases h with
  | whole digits hdigits => exact atom_of_isDigits hdigits
  | point whole fraction hwhole hfraction =>
    have hpieces : Composed [.operand .atomic, .chars ['.'], .operand .atomic]
        (whole ++ '.' :: fraction) :=
      ⟨whole, _, rfl, atom_of_isDigits hwhole, ['.'], fraction, rfl, rfl,
        composed_singleton.mpr (atom_of_isDigits hfraction)⟩
    exact operand_of_composed (by decide) hpieces

/-- A number in code, with the rank that its sign gives it. -/
theorem operand_codeText_finite (negative : Bool) (significand : Nat) (exponent : Int) :
    let number := Binary64.finite negative significand exponent
    Operand (if number.isNegative then .unaryPrefix else .atomic) number.codeText.toList := by
  intro number
  obtain ⟨body, decimal, hbody, htext, -⟩ := Binary64.codeText_finite negative significand exponent
  rw [htext]
  split
  · have hpieces : Composed [.chars ['-'], .operand .atomic] (['-'] ++ body) :=
      ⟨['-'], body, rfl, rfl, composed_singleton.mpr (atom_of_numeral hbody)⟩
    exact operand_of_composed (by decide) hpieces
  · exact atom_of_numeral hbody

theorem operand_codeText (number : Binary64) : Operand .unaryPrefix number.codeText.toList := by
  cases number with
  | nan => exact operand_of_spells "NaN" (by decide)
  | infinite negative =>
    cases negative with
    | false => exact operand_of_spells "inf" (by decide)
    | true => exact operand_of_spells "-inf" (by decide)
  | finite negative significand exponent =>
    refine Operand.mono (operand_codeText_finite negative significand exponent) ?_
    split <;> decide

/-- A number without its sign. -/
theorem atom_codeText_abs (number : Binary64) : Atom number.abs.codeText.toList := by
  cases number with
  | nan => exact operand_of_spells "NaN" (by decide)
  | infinite negative => exact operand_of_spells "inf" (by decide)
  | finite negative significand exponent =>
    have hfits := operand_codeText_finite false significand exponent
    simp only [Binary64.isNegative, Bool.false_and, Bool.false_eq_true, if_false] at hfits
    exact hfits

/-! ### String literals -/

/-- A character of a literal is escaped so that the reader stays inside. -/
theorem Mode.run_escape (c : Char) :
    (literal .double).run (Chars.escape '"' c) = some ([], literal .double) := by
  have hplain : ∀ d : Char, d ≠ '\n' → d ≠ '\\' → d ≠ '"' →
      (literal .double).step d = some ([], literal .double) := by
    intro d hbreak hslash hquote
    simp [step, hbreak, hslash, Quote.mark, hquote]
  have hescaped : ∀ (d : Char) (rest : List Char), d ≠ '\n' →
      (literal .double).run ('\\' :: d :: rest) = (literal .double).run rest := by
    intro d rest hbreak
    simp [run_cons, step, hbreak, Function.comp_def]
  unfold Chars.escape
  split
  · exact hescaped '\\' [] (by decide)
  · split
    · exact hescaped 'n' [] (by decide)
    · split
      · exact hescaped 'r' [] (by decide)
      · split
        · exact hescaped 't' [] (by decide)
        · split
          · rename_i hquote
            rw [hquote]
            exact hescaped '"' [] (by decide)
          · split
            · rename_i hcontrol
              have hdigit : ∀ n < 16,
                  n.digitChar ≠ '\n' ∧ n.digitChar ≠ '\\' ∧ n.digitChar ≠ '"' := by
                decide
              have hbound : c.toNat < 128 := by
                simp only [Chars.isControl, Bool.or_eq_true, decide_eq_true_eq, beq_iff_eq]
                  at hcontrol
                omega
              have hhigh := hdigit (c.toNat / 16) (by omega)
              have hlow := hdigit (c.toNat % 16) (by omega)
              rw [hescaped 'x' _ (by decide)]
              simp [Chars.hexByte, run, hplain _ hhigh.1 hhigh.2.1 hhigh.2.2,
                hplain _ hlow.1 hlow.2.1 hlow.2.2]
            · rename_i hslash hbreak _ _ hquote _
              simp [run, hplain c hbreak hslash hquote]

theorem Mode.run_escapes (raw : List Char) :
    (literal .double).run (raw.flatMap (Chars.escape '"')) = some ([], literal .double) := by
  induction raw with
  | nil => rfl
  | cons c rest ih =>
    rw [List.flatMap_cons, run_of_run (run_escape c), ih]
    rfl

theorem Mode.run_quote (raw : List Char) :
    code.run (Chars.quote '"' raw) = some ([.literal], code) := by
  have hopen : code.step '"' = some ([], literal .double) := by decide
  have hclose : (literal .double).run ['"'] = some ([.literal], code) := by decide
  rw [Chars.quote, run_cons, hopen, Option.bind_some, run_of_run (run_escapes raw), hclose]
  rfl

theorem Scan.read_quote (outline : Outline) (raw : List Char) :
    Scan.read (.code, outline) (Chars.quote '"' raw) = some (.code, outline.put .literal) := by
  rw [read_eq_run, Mode.run_quote]
  simp [Outline.addAll_cons, Outline.add]

theorem atom_quote (raw : String) : Atom (quote raw).toList := by
  have htext : (quote raw).toList = Chars.quote '"' raw.toList := String.toList_ofList
  rw [htext]
  have htokens : tokens (Chars.quote '"' raw.toList) = some [.literal] := by
    simp [tokens, Mode.run_quote, Mode.finish]
  refine ⟨⟨⟨'"', rfl, rfl⟩, fun outline hopened => ⟨.code, trivial, ?_⟩, fun outline hopened _ =>
    ⟨(.code, outline.put .literal), trivial,
      Scan.read_quote outline _, by simpa [Scan.settle] using hopened,
      fun rank hrank => .inl ?_⟩⟩, fun toks htoks => ?_⟩
  · rw [Scan.read_quote, Outline.put_of_opened hopened]
  · have hlookup : operators.lookup .literal = none := by decide
    simpa [Scan.settle, Outline.put, hopened, Token.rank?, hlookup, Token.minus] using hrank
  · obtain rfl := Option.some.inj (htokens.symm.trans htoks)
    exact List.forall_mem_singleton.mpr rfl

/-! ### Spelled text -/

theorem spells_operand_none (code : String) {rank : Rank} [h : Spells code [.operand rank]] :
    Spells code [.operand .none] :=
  spells_iff.mpr (Operand.mono (spells_iff.mp h) (Rank.level_le_none rank))

theorem Atom.spells {code : String} (h : Atom code.toList) (rank : Rank) :
    Spells code [.operand rank] :=
  spells_iff.mpr (h.operand rank)

theorem IsName.spells {word : String} (h : IsName word) : Spells word [.operand .atomic] :=
  spells_iff.mpr h.atom

end BlockSynth.Zig
