import BlockSynth.Proofs.Zig.Exposure

/-! # What texts are worth

A text that is one phrase of whole numbers has a value under every reckoning. Code
whose exposed operators are fine at its place is a phrase of the level of that place,
and so is an operand of what is put around it.
-/
namespace BlockSynth.Zig

variable {level : Nat} {tokens more : List Token} {tree left right : Amount} {operator : Operator}

/-! ### Texts -/

/-- A text that is a phrase of the given level, before whatever does not go on with a word. -/
def Denotes (level : Nat) (text : String) (tree : Amount) : Prop :=
  ∃ toks, Lexes text.toList toks ∧ Phrase level toks tree

/-- A text that is one expression of the given value. -/
def Worth (reckoning : Reckoning) (text : String) (value : Int) : Prop :=
  ∃ toks tree, Zig.tokens text.toList = some toks ∧ Phrase sentence toks tree ∧
    tree.eval reckoning = value

theorem Worth.unique {reckoning : Reckoning} {text : String} {value other : Int}
    (h : Worth reckoning text value) (h' : Worth reckoning text other) : value = other := by
  obtain ⟨toks, tree, htokens, hphrase, rfl⟩ := h
  obtain ⟨toks', tree', htokens', hphrase', rfl⟩ := h'
  obtain rfl := Option.some.inj (htokens.symm.trans htokens')
  rw [hphrase.unique hphrase']

variable {text : String}

theorem Denotes.mono {looser : Nat} (h : Denotes level text tree) (hle : level ≤ looser) :
    Denotes looser text tree := by
  obtain ⟨toks, hlexes, hphrase⟩ := h
  exact ⟨toks, hlexes, hphrase.mono hle⟩

theorem Denotes.worth (h : Denotes level text tree)
    (hle : level ≤ sentence) (reckoning : Reckoning) :
    Worth reckoning text (tree.eval reckoning) := by
  obtain ⟨toks, hlexes, hphrase⟩ := h.mono hle
  exact ⟨toks, tree, hlexes.tokens_eq, hphrase, rfl⟩

theorem Denotes.amount?_eq (h : Denotes level text tree) (hle : level ≤ sentence) :
    amount? text = some tree := by
  obtain ⟨toks, hlexes, hphrase⟩ := h.mono hle
  exact amount?_of_phrase hlexes.tokens_eq hphrase

/-- What a text exposes bounds the level on which it is a phrase. -/
theorem Phrase.denotes {toks : List Token} (h : Phrase sentence toks tree)
    (htokens : Zig.tokens text.toList = some toks) {fine : Rank → Prop}
    (hfits : Fits fine text.toList) (hfine : ∀ rank, fine rank → height rank ≤ level) :
    Denotes level text tree := by
  obtain ⟨outline, houtline, -, hexposed⟩ := hfits.outline?_eq
  obtain ⟨next, hleads, htight⟩ := @Phrase.leads _ _ _ h {} ⟨rfl, rfl, by simp⟩
  have hsame : outline? text.toList = some next := by
    simp only [outline?, htokens]
    exact hleads.addAll
  obtain rfl := Option.some.inj (houtline.symm.trans hsame)
  exact ⟨toks, hfits.lexes htokens, htight level fun rank hrank => hfine rank (hexposed rank hrank)⟩

theorem Worth.denotes {reckoning : Reckoning} {value : Int}
    (h : Worth reckoning text value) {fine : Rank → Prop}
    (hfits : Fits fine text.toList) (hfine : ∀ rank, fine rank → height rank ≤ level) :
    ∃ tree, Denotes level text tree ∧ tree.eval reckoning = value := by
  obtain ⟨toks, tree, htokens, hphrase, hvalue⟩ := h
  exact ⟨tree, hphrase.denotes htokens hfits hfine, hvalue⟩

/-! ### Composed texts -/

theorem Denotes.parens (h : Denotes sentence text tree) : Denotes 0 (s!"({text})") tree := by
  obtain ⟨toks, hlexes, hphrase⟩ := h
  refine ⟨_, ?_, hphrase.parens⟩
  rw [toList_wrapped]
  exact hlexes.parens

theorem Lexes.minus {text : List Char} {toks : List Token} (h : Lexes text toks) :
    Lexes ('-' :: text) (.minus :: toks) :=
  h.behind (show Mode.code.run ['-'] = some ([.minus], .code) from rfl) ⟨'-', rfl, by decide⟩

theorem Lexes.blank {text : List Char} {toks : List Token} (h : Lexes text toks) :
    Lexes (' ' :: text) toks :=
  h.behind (show Mode.code.run [' '] = some ([], .code) from rfl) ⟨' ', rfl, by decide⟩

theorem Denotes.signed (h : Denotes 0 text tree) :
    Denotes 0 (s!"-{text}") (.signed .minus tree) := by
  obtain ⟨toks, hlexes, hphrase⟩ := h
  refine ⟨_, ?_, hphrase.signed .minus⟩
  have htext : (s!"-{text}").toList = '-' :: text.toList := by
    show ("-" ++ text).toList = _
    simp
  rw [htext]
  exact hlexes.minus

theorem Denotes.minus (h : Denotes 0 text tree) :
    Denotes 0 (Zig.minus text) (.signed .minus tree) := by
  unfold Zig.minus
  split
  · obtain ⟨toks, hlexes, hphrase⟩ := h
    refine ⟨_, ?_, hphrase.signed .minus⟩
    have htext : (s!"- {text}").toList = '-' :: ' ' :: text.toList := by
      show ("- " ++ text).toList = _
      simp
    rw [htext]
    exact hlexes.blank.minus
  · exact h.signed

theorem Denotes.joined {a b : String} (hchain : operator.level ≠ Operator.comparing)
    (ha : Denotes operator.level a left) (hb : Denotes (operator.level - 1) b right) :
    Denotes operator.level (a ++ " " ++ operator.text ++ " " ++ b)
      (.binary operator left right) := by
  obtain ⟨toks, hlexes, hphrase⟩ := ha
  obtain ⟨toks', hlexes', hphrase'⟩ := hb
  refine ⟨toks ++ operator.token :: toks', ?_, hphrase.binary hchain hphrase'⟩
  rw [toList_joined]
  exact hlexes.joined hlexes' operator

/-! ### Places -/

/-- The level of code that a place admits without parentheses. -/
def reach : Rank → Nat
  | .atomic => 0
  | .unaryPostfix => 0
  | .unaryPrefix => 0
  | .multiplicative => 0
  | .additive => 1
  | .relational => 2
  | .equality => 3
  | .logicalAnd => 4
  | .logicalOr => 5
  | .conditional => 5
  | _ => sentence

theorem height_le_reach {place rank : Rank} (h : place.needsParens rank = false) :
    height rank ≤ reach place := by
  cases place <;> cases rank <;> first | decide | exact absurd h (by decide)

theorem reach_le_sentence (place : Rank) : reach place ≤ sentence := by
  cases place <;> decide

theorem Denotes.wrap {place rank : Rank} (h : Denotes (height rank) text tree) :
    Denotes (reach place) (wrap place rank text) tree := by
  unfold BlockSynth.wrap
  split
  · exact (h.mono (height_le_sentence rank)).parens.mono (Nat.zero_le _)
  · rename_i hparens
    exact h.mono (height_le_reach (by simpa using hparens))

/-! ### Words and literals -/

def Amount.word (word : String) : Amount :=
  .unit [.word word.toList]

theorem denotes_word {word : String} (h : IsName word) : Denotes 0 word (.word word) := by
  refine ⟨_, h.isPlain.lexes, .unit (.word h.isPlain.lookup .nil fun _ => ?_)⟩
  have hidentifier := h.isIdentifier
  cases hlist : word.toList with
  | nil => rfl
  | cons c rest =>
    rw [hlist, Chars.isIdentifier, Bool.and_eq_true] at hidentifier
    simp [Chars.isDigits, Chars.isDigit_of_isIdentifierStart hidentifier.1]

theorem denotes_digits {text : String} (h : Chars.isDigits text.toList = true) :
    Denotes 0 text (.whole (Chars.natOfDigits text.toList)) :=
  ⟨_, (isPlain_of_isDigits h).lexes, .whole h⟩

theorem denotes_toString (n : Nat) : Denotes 0 (toString n) (.whole n) := by
  have hdigits := denotes_digits (Chars.isDigits_toString n)
  rwa [Chars.natOfDigits_toString] at hdigits

def negated (negate : Bool) (value : Int) : Int :=
  if negate then -value else value

/-- The tree of an integer literal. -/
def integerTree (z : Int) : Amount :=
  if z < 0 then .signed .minus (.whole z.natAbs) else .whole z.natAbs

theorem eval_integerTree (z : Int) (reckoning : Reckoning) :
    (integerTree z).eval reckoning = z := by
  unfold integerTree
  split
  · simp only [Amount.eval, Sign.eval]
    omega
  · simp only [Amount.eval]
    omega

theorem denotes_integer (z : Int) : Denotes 0 (toString z) (integerTree z) := by
  have htext := Binary64.toString_toList_int z
  have hdigits := denotes_toString z.natAbs
  unfold integerTree
  split
  · rename_i hnegative
    rw [if_pos hnegative] at htext
    have hsigned := hdigits.signed
    have heq : s!"-{toString z.natAbs}" = toString z := by
      rw [← String.toList_inj, htext]
      show ("-" ++ toString z.natAbs).toList = _
      simp
    rw [← heq]
    exact hsigned
  · rename_i hpositive
    rw [if_neg hpositive] at htext
    rw [String.toList_inj.mp htext]
    exact hdigits

theorem Mode.run_blanks {blanks : List Char} (h : ∀ c ∈ blanks, Chars.isBlank c = true) :
    Mode.code.run blanks = some ([], .code) := by
  induction blanks with
  | nil => rfl
  | cons c rest ih =>
    have hc : start c = ([], code) := by simp [start, h c List.mem_cons_self]
    rw [run_cons]
    simp [step, hc, ih fun d hd => h d (List.mem_cons_of_mem _ hd)]

/-- A text in the middle of blanks. -/
theorem exists_trim_append (text : List Char) :
    ∃ before after, text = before ++ (Chars.trim text ++ after) ∧
    (∀ c ∈ before, Chars.isBlank c = true) ∧ ∀ c ∈ after, Chars.isBlank c = true := by
  obtain ⟨after, htext, hafter⟩ := Chars.exists_trimEnd_append (Chars.trimStart text)
  refine ⟨text.takeWhile Chars.isBlank, after, ?_, fun c hc => List.mem_takeWhile_imp hc, hafter⟩
  show text = _ ++ (Chars.trimEnd (Chars.trimStart text) ++ after)
  rw [← htext]
  exact List.takeWhile_append_dropWhile.symm

theorem Lexes.tokens_trim {text : List Char}
    {toks : List Token} (h : Lexes (Chars.trim text) toks) :
    Zig.tokens text = some toks := by
  obtain ⟨before, after, htext, hbefore, hafter⟩ := exists_trim_append text
  have hbreaks : Breaks after := by
    intro c hc
    exact isWordChar_of_isBlank (hafter c (List.mem_of_mem_head? hc))
  have hend : Mode.code.tokens after = some [] := by
    simp [Mode.tokens, Mode.run_blanks hafter, Mode.finish]
  have hall : Mode.code.tokens text = some toks := by
    rw [htext, Mode.tokens_append (Mode.run_blanks hbefore), h.tokens_append after hbreaks, hend]
    simp
  exact hall

/-- Text that reads as an integer literal: blanks, perhaps a sign, and digits that say
a signed 64-bit word. -/
theorem intLiteral?_eq_some {text : String} {z : Int} : Text.intLiteral? text = some z ↔
    ∃ negative digits, Chars.splitSign (Chars.trim text.toList) = (negative, digits) ∧
      Chars.isDigits digits = true ∧ z = negated negative (Chars.natOfDigits digits) ∧
      leastWord ≤ z ∧ z ≤ greatestWord := by
  unfold Text.intLiteral?
  rcases Chars.splitSign (Chars.trim text.toList) with ⟨negative, digits⟩
  show (if Chars.isDigits digits then
      if leastWord ≤ negated negative (Chars.natOfDigits digits) ∧
        negated negative (Chars.natOfDigits digits) ≤ greatestWord then
        some (negated negative (Chars.natOfDigits digits)) else none
      else none) = some z ↔ _
  constructor
  · intro h
    split at h
    · rename_i hdigits
      split at h
      · rename_i hrange
        obtain rfl := Option.some.inj h
        exact ⟨negative, digits, rfl, hdigits, rfl, hrange.1, hrange.2⟩
      · simp at h
    · simp at h
  · rintro ⟨negative', digits', hsplit, hdigits, rfl, hlow, hhigh⟩
    obtain ⟨rfl, rfl⟩ := Prod.mk.inj hsplit
    rw [if_pos hdigits, if_pos ⟨hlow, hhigh⟩]

/-- Such text is worth that integer. -/
theorem worth_of_literal {text : String} {z : Int}
    (h : Text.intLiteral? text = some z) (reckoning : Reckoning) :
    Worth reckoning text z := by
  obtain ⟨negative, digits, hsplit, hdigits, rfl, -⟩ := intLiteral?_eq_some.mp h
  have hwhole := (isPlain_of_isDigits hdigits).lexes
  unfold Chars.splitSign at hsplit
  split at hsplit
  · rename_i rest htrim
    obtain ⟨rfl, rfl⟩ := Prod.mk.inj hsplit
    exact ⟨_, _, Lexes.tokens_trim (htrim ▸ hwhole.minus),
      ((Phrase.whole hdigits).signed .minus).mono (Nat.zero_le _), rfl⟩
  · obtain ⟨rfl, rfl⟩ := Prod.mk.inj hsplit
    exact ⟨_, _, Lexes.tokens_trim hwhole, (Phrase.whole hdigits).mono (Nat.zero_le _), rfl⟩

theorem trim_eq_self {text : List Char} (h : ∀ c ∈ text, Chars.isBlank c = false) :
    Chars.trim text = text := by
  have hkeeps : ∀ {text : List Char}, (∀ c ∈ text, Chars.isBlank c = false) →
      text.dropWhile Chars.isBlank = text := by
    intro text h
    cases text with
    | nil => rfl
    | cons c rest => simp [h c List.mem_cons_self]
  have hstart : Chars.trimStart text = text := hkeeps h
  rw [Chars.trim, hstart, Chars.trimEnd, hkeeps fun c hc => h c (List.mem_reverse.mp hc),
    List.reverse_reverse]

/-- The text of an integer is a sign if it is negative, and digits. -/
theorem splitSign_toString (z : Int) :
    Chars.splitSign (toString z).toList = (decide (z < 0), (toString z.natAbs).toList) := by
  rw [Binary64.toString_toList_int]
  split
  · rename_i hnegative
    simp [Chars.splitSign, hnegative]
  · rename_i hpositive
    obtain ⟨hne, hdigits⟩ := Chars.isDigits_iff.mp (Chars.isDigits_toString z.natAbs)
    obtain ⟨c, rest, hlist⟩ := List.exists_cons_of_ne_nil hne
    have hc : c ≠ '-' := by
      rintro rfl
      exact absurd (hdigits '-' (hlist ▸ List.mem_cons_self)) (by decide)
    rw [hlist]
    unfold Chars.splitSign
    split
    · rename_i heq
      exact absurd (List.cons.inj heq).1 hc
    · simp [hpositive]

theorem isBlank_of_isDigit {c : Char} (h : c.isDigit = true) : Chars.isBlank c = false := by
  rw [Bool.eq_false_iff]
  intro hblank
  have hword := Chars.isWordChar_of_isDigit h
  rw [isWordChar_of_isBlank hblank] at hword
  exact absurd hword (by simp)

theorem trim_toString (z : Int) : Chars.trim (toString z).toList = (toString z).toList := by
  refine trim_eq_self fun c hc => ?_
  have hdigits := (Chars.isDigits_iff.mp (Chars.isDigits_toString z.natAbs)).2
  rw [Binary64.toString_toList_int] at hc
  split at hc
  · rcases List.mem_append.mp hc with hc | hc
    · obtain rfl := List.mem_singleton.mp hc
      decide
    · exact isBlank_of_isDigit (hdigits c hc)
  · exact isBlank_of_isDigit (hdigits c hc)

theorem intLiteral?_toString {z : Int} (hlow : leastWord ≤ z) (hhigh : z ≤ greatestWord) :
    Text.intLiteral? (toString z) = some z := by
  refine intLiteral?_eq_some.mpr
    ⟨decide (z < 0), _, ?_, Chars.isDigits_toString z.natAbs, ?_, hlow, hhigh⟩
  · rw [trim_toString, splitSign_toString]
  · rw [Chars.natOfDigits_toString]
    unfold negated
    split <;> rename_i hsign <;> simp only [decide_eq_true_eq] at hsign <;> omega

/-! ### Moved indices -/

/-- A literal that is moved and negated within the words that code is computed with. -/
def Unsaturated (delta : Int) (negate : Bool) : IndexOperand → Prop
  | .literal value => IndexOperand.saturate (value + delta) = value + delta ∧
      (negate = true → IndexOperand.saturate (-(value + delta)) = -(value + delta))
  | .code _ => True

/-- The tree of code that is moved. -/
def Amount.moved (delta : Int) (tree : Amount) : Amount :=
  if delta > 0 then .binary .add tree (integerTree delta)
  else if delta < 0 then .binary .subtract tree (.whole delta.natAbs)
  else tree

/-- The tree of code that is moved and perhaps negated. -/
def Amount.adjusted (delta : Int) (negate : Bool) (tree : Amount) : Amount :=
  if negate then .signed .minus (tree.moved delta) else tree.moved delta

theorem Amount.eval_adjusted (delta : Int) (negate : Bool) (tree : Amount) (reckoning : Reckoning) :
    (tree.adjusted delta negate).eval reckoning = negated negate (tree.eval reckoning + delta) := by
  have hmoved : (tree.moved delta).eval reckoning = tree.eval reckoning + delta := by
    unfold moved
    split
    · simp only [eval, Operator.eval, eval_integerTree]
    · split
      · simp only [eval, Operator.eval]
        omega
      · omega
  cases negate with
  | false => exact hmoved
  | true => exact congrArg Neg.neg hmoved

theorem denotes_shiftCode {raw : String} (delta : Int) (h : Denotes 2 raw tree) :
    Denotes 2 (IndexOperand.shiftCode raw delta) (tree.moved delta) := by
  unfold IndexOperand.shiftCode Amount.moved
  split
  · have hsum := @Denotes.joined _ _ .add raw (toString delta) (by decide) h
      ((denotes_integer delta).mono (Nat.zero_le _))
    have htext : s!"{raw} + {delta}" =
        raw ++ " " ++ Operator.add.text ++ " " ++ toString delta := by
      rw [← String.toList_inj, toList_joined]
      show (raw ++ " + " ++ toString delta).toList = _
      simp [Operator.text, Operator.token]
    exact htext ▸ hsum
  · split
    · have hdifference := @Denotes.joined _ _ .subtract raw (toString delta.natAbs) (by decide) h
        ((denotes_toString delta.natAbs).mono (Nat.zero_le _))
      have htext : s!"{raw} - {delta.natAbs}" =
          raw ++ " " ++ Operator.subtract.text ++ " " ++ toString delta.natAbs := by
        rw [← String.toList_inj, toList_joined]
        show (raw ++ " - " ++ toString delta.natAbs).toList = _
        simp [Operator.text, Operator.token, Token.minus]
      exact htext ▸ hdifference
    · exact h

/-- Code that is moved and negated. -/
theorem denotes_adjust_code {raw : String} {delta : Int} {negate : Bool} {place : Rank}
    (h : Denotes (reach (IndexOperand.operandRank delta negate place)) raw tree) :
    Denotes (reach place) ((IndexOperand.code raw).adjust delta negate place)
      (tree.adjusted delta negate) := by
  by_cases hdelta : delta = 0
  · subst hdelta
    cases negate with
    | false => exact h
    | true => exact @Denotes.wrap _ _ place .unaryPrefix h.signed
  · have hrank : IndexOperand.operandRank delta negate place = .additive := by
      simp [IndexOperand.operandRank, hdelta]
    rw [hrank] at h
    have hmoved := denotes_shiftCode delta (h.mono (by decide))
    cases negate with
    | false =>
      have hsum : Denotes (height .additive) (IndexOperand.shiftCode raw delta)
          (tree.moved delta) := hmoved
      have hadjust : (IndexOperand.code raw).adjust delta false place =
          wrap place .additive (IndexOperand.shiftCode raw delta) := by
        simp [IndexOperand.adjust, IndexOperand.shiftRank?, hdelta, wrap]
      rw [hadjust]
      exact hsum.wrap
    | true =>
      have hparens := (hmoved.mono (show 2 ≤ sentence by decide)).parens
      have htext : "-" ++ ("(" ++ IndexOperand.shiftCode raw delta ++ ")") =
          s!"-({IndexOperand.shiftCode raw delta})" := by
        show _ = "-(" ++ IndexOperand.shiftCode raw delta ++ ")"
        rw [← String.toList_inj]
        simp
      have hsigned : Denotes (height .unaryPrefix) (s!"-({IndexOperand.shiftCode raw delta})")
          (.signed .minus (tree.moved delta)) := htext ▸ hparens.signed
      have hadjust : (IndexOperand.code raw).adjust delta true place =
          wrap place .unaryPrefix (s!"-({IndexOperand.shiftCode raw delta})") := by
        simp [IndexOperand.adjust, IndexOperand.shiftRank?, hdelta, wrap]
      rw [hadjust]
      exact hsigned.wrap

theorem adjust_literal {z delta : Int} {negate : Bool}
    (h : Unsaturated delta negate (.literal z)) (place : Rank) :
    (IndexOperand.literal z).adjust delta negate place = toString (negated negate (z + delta)) := by
  obtain ⟨hmoved, hsigned⟩ := h
  unfold IndexOperand.adjust negated
  cases negate with
  | false => simp [hmoved]
  | true => simp only [hmoved, hsigned rfl, if_true]

/-- An index is moved and negated to what its place admits and its value says. -/
theorem denotes_adjust {raw : String} {delta : Int} {negate : Bool} {place : Rank}
    (h : Denotes (reach (IndexOperand.operandRank delta negate place)) raw tree)
    (hunsaturated : Unsaturated delta negate (IndexOperand.ofCode raw)) :
    ∃ result, Denotes (reach place) ((IndexOperand.ofCode raw).adjust delta negate place) result ∧
      ∀ reckoning, result.eval reckoning = negated negate (tree.eval reckoning + delta) := by
  unfold IndexOperand.ofCode at hunsaturated ⊢
  cases hliteral : Text.intLiteral? raw with
  | none =>
    exact ⟨_, denotes_adjust_code h, fun reckoning => tree.eval_adjusted delta negate reckoning⟩
  | some z =>
    simp only [hliteral] at hunsaturated
    have hvalue : ∀ reckoning, tree.eval reckoning = z := fun reckoning =>
      (h.worth (reach_le_sentence _) reckoning).unique (worth_of_literal hliteral reckoning)
    refine ⟨integerTree (negated negate (z + delta)), ?_, fun reckoning => ?_⟩
    · show Denotes _ ((IndexOperand.literal z).adjust delta negate place) _
      rw [adjust_literal hunsaturated]
      exact (denotes_integer _).mono (Nat.zero_le _)
    · rw [eval_integerTree, hvalue]

end BlockSynth.Zig
