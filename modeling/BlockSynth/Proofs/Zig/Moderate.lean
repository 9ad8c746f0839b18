import BlockSynth.Proofs.Number.Order
import BlockSynth.Proofs.Zig.Indexing

/-! # Code that is no extreme integer

Rendered code that reads as an integer literal comes from a number, perhaps with a
sign in front, and no double is written with the digits of the least or of the
greatest word. So an index that is moved by one is never capped.
-/
namespace BlockSynth.Zig

open Chars Script

/-! ### Integer literals -/

/-- The magnitude of code that is an integer literal, blanks around it and a sign allowed. -/
def magnitude? (code : String) : Option Nat :=
  let digits := (splitSign (trim code.toList)).2
  if isDigits digits then some (natOfDigits digits) else none

/-- Code that is no integer literal of the magnitude that the greatest or the least word has. -/
def Moderate (code : String) : Prop :=
  magnitude? code ∉ [some 9223372036854775807, some 9223372036854775808]

/-- Where no sum leaves the words, literals are moved like all code. -/
theorem Moderate.unsaturated {code : String} (h : Moderate code) {delta : Int} (hlow : -1 ≤ delta)
    (hhigh : delta ≤ 1) : Unsaturated delta false (IndexOperand.ofCode code) := by
  unfold IndexOperand.ofCode
  cases hliteral : Text.intLiteral? code with
  | none => exact trivial
  | some z =>
    obtain ⟨negative, digits, hsplit, hdigits, hz, hleast, hgreatest⟩ :=
      intLiteral?_eq_some.mp hliteral
    have hmagnitude : magnitude? code = some (natOfDigits digits) := by
      simp [magnitude?, hsplit, hdigits]
    simp only [Moderate, hmagnitude, List.mem_cons, Option.some.injEq, List.not_mem_nil,
      or_false, not_or] at h
    have hwords : leastWord = -9223372036854775808 ∧ greatestWord = 9223372036854775807 := by decide
    refine ⟨saturate_eq_iff.mpr ?_, fun hnegate => by simp at hnegate⟩
    rw [hwords.1] at hleast ⊢
    rw [hwords.2] at hgreatest ⊢
    unfold negated at hz
    split at hz <;> omega

/-! ### Code that is no literal -/

/-- Text of digits, signs and blanks in which a digit follows every sign. -/
structure Numeric (text : List Char) : Prop where
  chars : ∀ c ∈ text, c.isDigit = true ∨ c = '-' ∨ isBlank c = true
  signs : text.IsChain fun c d => c = '-' → d.isDigit = true

theorem isChain_of_unsigned {text : List Char} (h : '-' ∉ text) :
    text.IsChain fun c d => c = '-' → d.isDigit = true := by
  rw [List.isChain_iff_getElem]
  intro i hi hsign
  exact absurd (hsign ▸ List.getElem_mem _) h

theorem Numeric.left {text more : List Char} (h : Numeric (text ++ more)) : Numeric text :=
  ⟨fun c hc => h.chars c (List.mem_append_left _ hc), (List.isChain_append.mp h.signs).1⟩

theorem Numeric.right {text more : List Char} (h : Numeric (text ++ more)) : Numeric more :=
  ⟨fun c hc => h.chars c (List.mem_append_right _ hc), (List.isChain_append.mp h.signs).2.1⟩

theorem numeric_of_blanks {text : List Char} (h : ∀ c ∈ text, isBlank c = true) : Numeric text := by
  refine ⟨fun c hc => .inr (.inr (h c hc)), isChain_of_unsigned fun hsign => ?_⟩
  exact absurd (h '-' hsign) (by decide)

theorem numeric_of_digits {text : List Char} (h : ∀ c ∈ text, c.isDigit = true) : Numeric text := by
  refine ⟨fun c hc => .inl (h c hc), isChain_of_unsigned fun hsign => ?_⟩
  exact absurd (h '-' hsign) (by decide)

theorem Numeric.append {text more : List Char} (h : Numeric text) (hmore : Numeric more)
    (hlast : text.getLast? ≠ some '-') : Numeric (text ++ more) := by
  refine ⟨fun c hc => (List.mem_append.mp hc).elim (h.chars c) (hmore.chars c), ?_⟩
  refine List.isChain_append.mpr ⟨h.signs, hmore.signs, ?_⟩
  rintro c hc d - rfl
  exact absurd hc hlast

/-- Only the blanks around a text are trimmed off. -/
theorem trim_append {before text after : List Char} (hbefore : ∀ c ∈ before, isBlank c = true)
    (hafter : ∀ c ∈ after, isBlank c = true) (htext : ∀ c ∈ text, isBlank c = false) :
    trim (before ++ (text ++ after)) = text := by
  have hstart : trimStart (before ++ (text ++ after)) = trimStart (text ++ after) := by
    simp [trimStart, List.dropWhile_append, List.dropWhile_eq_nil_iff.mpr hbefore]
  have hself := trim_eq_self htext
  rw [trim, hstart]
  cases text with
  | nil =>
    have hnil : trimStart ([] ++ after) = [] := List.dropWhile_eq_nil_iff.mpr hafter
    rw [hnil]
    rfl
  | cons c rest =>
    have hkept : trimStart (c :: rest) = c :: rest := by
      simp [trimStart, htext c List.mem_cons_self]
    have hkept' : trimStart (c :: rest ++ after) = c :: rest ++ after := by
      simp [trimStart, htext c List.mem_cons_self]
    rw [hkept', trimEnd_append_blank hafter]
    rwa [trim, hkept] at hself

/-- Digits, perhaps with a sign in front. -/
inductive Signed (digits : List Char) : List Char → Prop
  | positive : Signed digits digits
  | negative : Signed digits ('-' :: digits)

theorem signed_splitSign (text : List Char) : Signed (splitSign text).2 text := by
  unfold splitSign
  split
  · exact .negative
  · exact .positive

variable {text digits : List Char}

theorem Signed.splitSign (h : Signed digits text) (hdigits : isDigits digits = true) :
    (splitSign text).2 = digits := by
  cases h with
  | negative => rfl
  | positive =>
    unfold Chars.splitSign
    split
    · exact absurd ((isDigits_iff.mp hdigits).2 '-' List.mem_cons_self) (by decide)
    · rfl

theorem Signed.isBlank (h : Signed digits text) (hdigits : isDigits digits = true) :
    ∀ c ∈ text, isBlank c = false := by
  have hall : ∀ c ∈ digits, Chars.isBlank c = false := fun c hc =>
    isBlank_of_isDigit ((isDigits_iff.mp hdigits).2 c hc)
  cases h with
  | positive => exact hall
  | negative => exact List.forall_mem_cons.mpr ⟨by decide, hall⟩

/-- The parts of an integer literal: blanks, digits behind a sign if there is one, and blanks. -/
theorem magnitude?_eq_some {code : String} {n : Nat} : magnitude? code = some n ↔
    ∃ before text after digits,
      code.toList = before ++ (text ++ after) ∧ (∀ c ∈ before, isBlank c = true) ∧
      (∀ c ∈ after, isBlank c = true) ∧ Signed digits text ∧ isDigits digits = true ∧
      natOfDigits digits = n := by
  constructor
  · intro h
    obtain ⟨before, after, htext, hbefore, hafter⟩ := exists_trim_append code.toList
    simp only [magnitude?, Option.ite_none_right_eq_some, Option.some.injEq] at h
    exact ⟨before, _, after, _, htext, hbefore, hafter, signed_splitSign _, h.1, h.2⟩
  · rintro ⟨before, text, after, digits, htext, hbefore, hafter, hsigned, hdigits, rfl⟩
    have htrim := trim_append hbefore hafter (hsigned.isBlank hdigits)
    rw [← htext] at htrim
    simp [magnitude?, htrim, hsigned.splitSign hdigits, hdigits]

theorem Signed.numeric (h : Signed digits text) (hdigits : isDigits digits = true) :
    Numeric text ∧ text.getLast? ≠ some '-' := by
  obtain ⟨hne, hall⟩ := isDigits_iff.mp hdigits
  have hnumeric := numeric_of_digits hall
  have hlast : digits.getLast? ≠ some '-' := fun hsign =>
    absurd (hall '-' (List.mem_of_getLast? hsign)) (by decide)
  cases h with
  | positive => exact ⟨hnumeric, hlast⟩
  | negative =>
    refine ⟨⟨List.forall_mem_cons.mpr ⟨.inr (.inl rfl), hnumeric.chars⟩, ?_⟩, ?_⟩
    · exact List.isChain_cons.mpr ⟨fun c hc _ => hall c (List.mem_of_mem_head? hc), hnumeric.signs⟩
    · rwa [List.getLast?_cons_of_ne_nil hne]

theorem numeric_of_magnitude? {code : String} {n : Nat} (h : magnitude? code = some n) :
    Numeric code.toList := by
  obtain ⟨before, text, after, digits, htext, hbefore, hafter, hsigned, hdigits, -⟩ :=
    magnitude?_eq_some.mp h
  obtain ⟨hmiddle, hlast⟩ := hsigned.numeric hdigits
  rw [htext]
  refine (numeric_of_blanks hbefore).append
    (hmiddle.append (numeric_of_blanks hafter) hlast) fun hsign => ?_
  exact absurd (hbefore '-' (List.mem_of_getLast? hsign)) (by decide)

/-- Code with a part that no integer literal has. -/
def Foreign (code : String) : Prop :=
  ¬Numeric code.toList

theorem Foreign.moderate {code : String} (h : Foreign code) : Moderate code := by
  cases hmagnitude : magnitude? code with
  | none => simp [Moderate, hmagnitude]
  | some n => exact absurd (numeric_of_magnitude? hmagnitude) h

@[simp] theorem foreign_append {code more : String} (h : Foreign code ∨ Foreign more) :
    Foreign (code ++ more) := by
  intro hall
  rw [String.toList_append] at hall
  exact h.elim (fun hcode => hcode hall.left) fun hmore => hmore hall.right

theorem foreign_of_mem {code : String} {c : Char} (hmem : c ∈ code.toList)
    (hdigit : c.isDigit = false) (hsign : c ≠ '-') (hblank : isBlank c = false) : Foreign code := by
  intro hall
  rcases hall.chars c hmem with hc | hc | hc
  · rw [hc] at hdigit
    simp at hdigit
  · exact hsign hc
  · rw [hc] at hblank
    simp at hblank

/-- An operator between two operands. -/
theorem foreign_between (a : String) {operator : String} (h : Foreign operator) (b : String) :
    Foreign (a ++ " " ++ operator ++ " " ++ b) :=
  foreign_append (.inl (foreign_append (.inl (foreign_append (.inr h)))))

/-- A sign with a blank behind it. -/
theorem foreign_minus (code : String) : Foreign ("- " ++ code) := by
  intro hall
  rw [String.toList_append] at hall
  exact absurd hall.left.signs (by decide)

theorem foreign_difference (a b : String) : Foreign (a ++ " " ++ "-" ++ " " ++ b) := by
  have hsplit : a ++ " " ++ "-" ++ " " ++ b = a ++ " " ++ ("- " ++ b) := by
    rw [← String.toList_inj]
    simp
  rw [hsplit]
  exact foreign_append (.inr (foreign_minus b))

theorem IsName.foreign {word : String} (h : IsName word) : Foreign word := by
  have hidentifier := h.isIdentifier
  cases hlist : word.toList with
  | nil =>
    rw [hlist] at hidentifier
    exact absurd hidentifier (by decide)
  | cons c rest =>
    rw [hlist, Chars.isIdentifier, Bool.and_eq_true] at hidentifier
    have hmem : c ∈ word.toList := by simp [hlist]
    have hword : isWordChar c = true := h.isPlain.isWordChar c hmem
    apply foreign_of_mem hmem (isDigit_of_isIdentifierStart hidentifier.1)
    · rintro rfl
      exact absurd hword (by decide)
    · rw [Bool.eq_false_iff]
      intro hblank
      rw [isWordChar_of_isBlank hblank] at hword
      simp at hword

-- Over the list, since quantifiers over all characters are decidable as well.
instance (text : List Char) : Decidable (Numeric text) :=
  decidable_of_iff (text.all (fun c => c.isDigit || c == '-' || isBlank c) = true ∧
      text.IsChain fun c d => c = '-' → d.isDigit = true)
    ⟨fun h => ⟨by simpa [or_assoc] using h.1, h.2⟩, fun h =>
      ⟨by simpa [or_assoc] using h.chars, h.signs⟩⟩

instance (code : String) : Decidable (Foreign code) :=
  inferInstanceAs (Decidable (¬Numeric code.toList))

/-! ### Numbers and signs -/

/-- The two extreme magnitudes round to one double, which is written with other digits. -/
theorem natOfDigits_codeText_not_extreme {significand : Nat} {exponent : Int}
    {body : List Char} {n : Nat} (hn : n ∈ [9223372036854775807, 9223372036854775808])
    (hvalue : (Decimal.mk false n 0).toBinary64 = .finite false significand exponent)
    (htext : (Binary64.finite false significand exponent).codeText.toList = body) :
    natOfDigits body ≠ n := by
  have hdouble : (Decimal.mk false n 0).toBinary64 = .finite false 4503599627370496 11 := by
    simp only [List.mem_cons, List.not_mem_nil, or_false] at hn
    rcases hn with rfl | rfl <;> decide +kernel
  have hwritten : (Binary64.finite false 4503599627370496 11).codeText = "9223372036854776000" := by
    decide +kernel
  rw [← hvalue, hdouble, hwritten] at htext
  rw [← htext]
  rintro rfl
  exact absurd hn (by decide)

theorem moderate_codeText {significand : Nat} {exponent : Int}
    (hcanonical : Binary64.Canonical significand exponent) (negative : Bool) :
    Moderate (Binary64.finite negative significand exponent).codeText := by
  obtain ⟨body, decimal, hbody, hdecimal, htext⟩ := Binary64.codeText_canonical false hcanonical
  have hpositive : (Binary64.finite false significand exponent).isNegative = false := by
    simp [Binary64.isNegative]
  have hsigned := Binary64.codeText_eq_append negative significand exponent
  rw [hpositive, if_neg Bool.false_ne_true, List.nil_append] at htext
  rw [htext] at hsigned
  cases hbody with
  | point whole fraction _ _ =>
    refine Foreign.moderate (@foreign_of_mem _ '.' ?_ (by decide) (by decide) (by decide))
    rw [hsigned]
    simp
  | whole digits hdigits =>
    have hparts : Signed body (Binary64.finite negative significand exponent).codeText.toList := by
      rw [hsigned]
      split
      · exact .negative
      · exact .positive
    have hmagnitude : magnitude? (Binary64.finite negative significand exponent).codeText =
        some (natOfDigits body) :=
      magnitude?_eq_some.mpr ⟨[], _, [], body, by simp, List.forall_mem_nil _,
        List.forall_mem_nil _, hparts, hdigits, rfl⟩
    have hvalue : (Decimal.mk false (natOfDigits body) 0).toBinary64 =
        .finite false significand exponent := by
      rw [Decimal.ofParts, List.append_nil] at hdecimal
      exact hdecimal
    intro hextreme
    rw [hmagnitude] at hextreme
    refine natOfDigits_codeText_not_extreme ?_ hvalue htext rfl
    simpa using hextreme

/-- A sign in front of a literal leaves its magnitude as it is. -/
theorem Moderate.minus {operand : String} (h : Moderate operand) :
    Moderate (Zig.minus operand) := by
  unfold Zig.minus
  split
  · exact (foreign_minus operand).moderate
  · cases hmagnitude : magnitude? s!"-{operand}" with
    | none => simp [Moderate, hmagnitude]
    | some n =>
      obtain ⟨before, text, after, digits, htext, hbefore, hafter, hsigned, hdigits, hn⟩ :=
        magnitude?_eq_some.mp hmagnitude
      have hcons : '-' :: operand.toList = before ++ (text ++ after) := by
        rw [← htext]
        show _ = ("-" ++ operand).toList
        simp
      cases before with
      | cons c rest =>
        obtain rfl := (List.cons.inj hcons).1
        exact absurd (hbefore '-' List.mem_cons_self) (by decide)
      | nil =>
        cases hsigned with
        | positive =>
          obtain ⟨hne, hall⟩ := isDigits_iff.mp hdigits
          obtain ⟨c, rest, rfl⟩ := List.exists_cons_of_ne_nil hne
          obtain rfl := (List.cons.inj hcons).1
          exact absurd (hall '-' List.mem_cons_self) (by decide)
        | negative =>
          have hoperand : operand.toList = digits ++ after := (List.cons.inj hcons).2
          have hsame := magnitude?_eq_some.mpr ⟨[], digits, after, digits, hoperand,
            List.forall_mem_nil _, hafter, .positive, hdigits, hn⟩
          unfold Moderate at h ⊢
          rwa [hmagnitude, ← hsame]

theorem Moderate.wrap {code : String} (h : Moderate code) (place rank : Rank) :
    Moderate (BlockSynth.wrap place rank code) := by
  unfold BlockSynth.wrap
  split
  · have hopening : Foreign "(" := by decide
    exact (foreign_append (.inl (foreign_append (.inl hopening)))).moderate
  · exact h

end BlockSynth.Zig
