import BlockSynth.Proofs.Zig.Amount

/-! # What phrases expose

The operators that a phrase has outside of brackets bound the level on which it is one.
-/
namespace BlockSynth.Zig

variable {level : Nat} {tokens more : List Token} {tree left right : Amount} {operator : Operator}

/-! ### Phrases and their outlines -/

/-- The level of the operators of a rank. -/
def height : Rank → Nat
  | .atomic => 0
  | .unaryPostfix => 0
  | .unaryPrefix => 0
  | .multiplicative => 1
  | .additive => 2
  | .relational => 3
  | .equality => 3
  | .logicalAnd => 4
  | .logicalOr => 5
  | _ => sentence

theorem Operator.height_rank (operator : Operator) : height operator.rank = operator.level := by
  cases operator <;> rfl

theorem height_le_sentence (rank : Rank) : height rank ≤ sentence := by
  cases rank <;> decide

theorem Outline.add_word (outline : Outline) (text : List Char) :
    outline.add (.word text) = some (outline.put (.word text)) := rfl

theorem Outline.add_symbol (outline : Outline) (text : List Char) :
    outline.add (.symbol text) = some (outline.put (.symbol text)) := rfl

theorem Nested.addAll (h : Nested tokens) {outline : Outline} (hopened : outline.opened ≠ []) :
    outline.addAll tokens = some outline := by
  induction h generalizing outline with
  | nil => rfl
  | word text _ ih =>
    rw [Outline.addAll_cons, Outline.add_word, Outline.put_of_opened hopened]
    exact ih hopened
  | symbol text _ ih =>
    rw [Outline.addAll_cons, Outline.add_symbol, Outline.put_of_opened hopened]
    exact ih hopened
  | literal _ ih =>
    rw [Outline.addAll_cons]
    show (some (outline.put .literal)).bind _ = _
    rw [Outline.put_of_opened hopened]
    exact ih hopened
  | @group bracket closer _ _ hcloser _ _ ih ih' =>
    have hinner := @ih { outline with opened := bracket :: outline.opened } (by simp)
    rw [Outline.addAll_cons, Outline.add, Option.bind_some, Outline.addAll_append, hinner,
      Option.bind_some, Outline.addAll_cons, Outline.add]
    simp only [hcloser, if_true, ne_eq, hopened, not_false_eq_true, Option.bind_some]
    exact ih' hopened

/-- A group outside all brackets counts as its closer, behind an `if` as nothing. -/
theorem Nested.addAll_group (h : Nested tokens) {outline : Outline} (hopened : outline.opened = [])
    {bracket closer : Char} (hcloser : closer? bracket = some closer) (rest : List Token) :
    outline.addAll (.opening bracket :: (tokens ++ .closing closer :: rest)) =
      Outline.addAll { outline with
        last := if outline.last = some .ifWord then none else some (.closing closer) } rest := by
  have hinner := @Nested.addAll _ h { outline with opened := bracket :: outline.opened } (by simp)
  rw [Outline.addAll_cons, Outline.add, Option.bind_some, Outline.addAll_append, hinner,
    Option.bind_some, Outline.addAll_cons, Outline.add]
  simp only [hcloser, if_true, hopened, ne_eq, not_true_eq_false, if_false, Option.bind_some]

/-- Where an operand may begin. -/
structure Awaits (outline : Outline) : Prop where
  opened : outline.opened = []
  last : outline.last.any Token.endsOperand = false
  condition : outline.last ≠ some .ifWord

/-- The tokens lead from one outline to another, behind an operand, and nothing exposed is lost. -/
structure Leads (tokens : List Token) (outline next : Outline) : Prop where
  addAll : outline.addAll tokens = some next
  opened : next.opened = []
  last : next.last.any Token.endsOperand = true
  exposed : outline.exposed ⊆ next.exposed

theorem put_of_nil {outline : Outline} (h : outline.opened = []) (token : Token) :
    outline.put token = { outline with
      last := some token, exposed := (token.rank? outline.last).toList ++ outline.exposed } :=
  if_pos h

theorem awaits_put {outline : Outline} (h : outline.opened = []) {token : Token}
    (hends : token.endsOperand = false) (hif : token ≠ .ifWord) : Awaits (outline.put token) := by
  rw [put_of_nil h]
  exact ⟨h, hends, fun heq => hif (Option.some.inj heq)⟩

theorem endsOperand_word {text : List Char} (h : operators.lookup (.word text) = none) :
    (Token.word text).endsOperand = true := by
  simp [Token.endsOperand, h]

theorem Suffixes.leads {outline : Outline} (h : Suffixes tokens) (hopened : outline.opened = [])
    (hlast : outline.last.any Token.endsOperand = true) : ∃ next, Leads tokens outline next := by
  induction h generalizing outline with
  | nil => exact ⟨outline, rfl, hopened, hlast, List.Subset.refl _⟩
  | @field name _ hname _ ih =>
    obtain ⟨next, hnext⟩ := @ih ((outline.put (.symbol ['.'])).put (.word name)) (by simp [hopened])
      (by simp [put_of_nil, hopened, endsOperand_word hname])
    refine ⟨next, hnext.addAll, hnext.opened, hnext.last, fun rank hrank => hnext.exposed ?_⟩
    simp [put_of_nil, hopened, hrank]
  | @group bracket closer _ _ _ hcloser hinner _ ih =>
    have hif : outline.last ≠ some .ifWord := by
      intro heq
      rw [heq] at hlast
      exact absurd hlast (by decide)
    obtain ⟨next, hnext⟩ := @ih { outline with last := some (.closing closer) } hopened rfl
    refine ⟨next, ?_, hnext.opened, hnext.last, hnext.exposed⟩
    rw [hinner.addAll_group hopened hcloser, if_neg hif]
    exact hnext.addAll

theorem leads_group {outline : Outline} (h : Nested tokens)
    (hopened : outline.opened = []) (hlast : outline.last ≠ some .ifWord) :
    Leads (.opening '(' :: (tokens ++ [.closing ')'])) outline
      { outline with last := some (.closing ')') } := by
  refine ⟨?_, hopened, rfl, List.Subset.refl _⟩
  rw [h.addAll_group hopened rfl, if_neg hlast]
  rfl

theorem Leads.trans {outline middle next : Outline} (h : Leads tokens outline middle)
    (hnext : Leads more middle next) : Leads (tokens ++ more) outline next := by
  refine ⟨?_, hnext.opened, hnext.last, fun rank hrank => hnext.exposed (h.exposed hrank)⟩
  rw [Outline.addAll_append, h.addAll]
  exact hnext.addAll

/-- A token that is no bracket, before what goes on from there. -/
theorem Leads.cons_put {outline next : Outline} {token : Token}
    (hopened : outline.opened = []) (hadd : outline.add token = some (outline.put token))
    (h : Leads tokens (outline.put token) next) :
    Leads (token :: tokens) outline next := by
  refine ⟨?_, h.opened, h.last, fun rank hrank => h.exposed ?_⟩
  · rw [Outline.addAll_cons, hadd]
    exact h.addAll
  · simp [put_of_nil hopened, hrank]

theorem leads_nil {outline : Outline} (hopened : outline.opened = [])
    (hlast : outline.last.any Token.endsOperand = true) : Leads [] outline outline :=
  ⟨rfl, hopened, hlast, List.Subset.refl _⟩

theorem IsUnit.leads {outline : Outline} (h : IsUnit tokens) (hawaits : Awaits outline) :
    ∃ next, Leads tokens outline next := by
  cases h with
  | @word text _ hlookup htail _ =>
    obtain ⟨next, hnext⟩ :=
      @Suffixes.leads _ (outline.put (.word text)) htail (by simp [hawaits.opened])
      (by simp [put_of_nil, hawaits.opened, endsOperand_word hlookup])
    exact ⟨next, hnext.cons_put hawaits.opened rfl⟩
  | literal htail =>
    obtain ⟨next, hnext⟩ :=
      @Suffixes.leads _ (outline.put .literal) htail (by simp [hawaits.opened])
      (by simp [put_of_nil, hawaits.opened, Token.endsOperand])
    exact ⟨next, hnext.cons_put hawaits.opened rfl⟩
  | @builtin name _ _ hlookup htail =>
    have hopened : (outline.put .builtin).opened = [] := by simp [hawaits.opened]
    obtain ⟨next, hnext⟩ := @Suffixes.leads _ ((outline.put .builtin).put (.word name)) htail
      (by simp [hawaits.opened]) (by simp [put_of_nil, hawaits.opened, endsOperand_word hlookup])
    exact ⟨next, (hnext.cons_put hopened rfl).cons_put hawaits.opened rfl⟩
  | @group inner tail hinner htail _ =>
    have hfirst := leads_group hinner hawaits.opened hawaits.condition
    obtain ⟨next, hnext⟩ := htail.leads hfirst.opened hfirst.last
    have hall := hfirst.trans hnext
    rw [List.cons_append, List.append_assoc, List.singleton_append] at hall
    exact ⟨next, hall⟩

theorem Operator.rank?_token (operator : Operator)
    {last : Option Token} (h : last.any Token.endsOperand = true) :
    operator.token.rank? last = some operator.rank := by
  unfold Token.rank?
  rw [h]
  cases operator <;> rfl

theorem Operator.awaits_put (operator : Operator) {outline : Outline} (h : outline.opened = []) :
    Awaits (outline.put operator.token) :=
  Zig.awaits_put h (by cases operator <;> decide) (by cases operator <;> decide)

theorem Operator.add_token (operator : Operator) (outline : Outline) :
    outline.add operator.token = some (outline.put operator.token) := by
  cases operator <;> rfl

theorem Leads.join {outline middle next : Outline} (h : Leads tokens outline middle)
    (hnext : Leads more (middle.put operator.token) next) :
    Leads (tokens ++ operator.token :: more) outline next ∧ operator.rank ∈ next.exposed :=
  ⟨h.trans (hnext.cons_put h.opened (operator.add_token middle)),
    hnext.exposed (by simp [put_of_nil h.opened, operator.rank?_token h.last])⟩

theorem Leads.choice {outline middle next : Outline} {test : List Token}
    (hopened : outline.opened = []) (htest : Nested test)
    (h : Leads tokens { outline.put .ifWord with last := none } middle)
    (hnext : Leads more (middle.put .elseWord) next) :
    Leads (.ifWord :: .opening '(' :: (test ++ .closing ')' :: (tokens ++ .elseWord :: more)))
      outline next ∧
      Rank.conditional ∈ next.exposed := by
  have hput : (outline.put .ifWord).opened = [] := by simp [hopened]
  have hif : (outline.put .ifWord).last = some .ifWord := by simp [put_of_nil hopened]
  have hbranches := h.trans (hnext.cons_put h.opened rfl)
  constructor
  · refine Leads.cons_put hopened rfl ⟨?_, hbranches.opened, hbranches.last, hbranches.exposed⟩
    rw [htest.addAll_group hput rfl, if_pos hif]
    exact hbranches.addAll
  · refine hbranches.exposed ?_
    have hexposed : (Token.ifWord.rank? outline.last).toList = [.conditional] := rfl
    simp [put_of_nil hopened, hexposed]

/-- What a phrase exposes bounds the level on which it is one. -/
theorem Phrase.leads (h : Phrase level tokens tree) {outline : Outline} (hawaits : Awaits outline) :
    ∃ next, Leads tokens outline next ∧
      ∀ looser, (∀ rank ∈ next.exposed, height rank ≤ looser) → Phrase looser tokens tree := by
  induction h generalizing outline with
  | @whole text hdigits =>
    refine ⟨_, (leads_nil (by simp [hawaits.opened]) ?_).cons_put hawaits.opened rfl,
      fun looser _ => (Phrase.whole hdigits).mono (Nat.zero_le looser)⟩
    simp [put_of_nil, hawaits.opened, endsOperand_word (lookup_digits hdigits)]
  | unit hunit =>
    obtain ⟨next, hnext⟩ := hunit.leads hawaits
    exact ⟨next, hnext, fun looser _ => (Phrase.unit hunit).mono (Nat.zero_le looser)⟩
  | magnitude h _ =>
    have hopened : (outline.put .builtin).opened = [] := by simp [hawaits.opened]
    have hopened' : ((outline.put .builtin).put .absWord).opened = [] := by simp [hawaits.opened]
    have hlast : ((outline.put .builtin).put .absWord).last ≠ some .ifWord := by
      simp [put_of_nil, hawaits.opened, Token.absWord, Token.ifWord]
    have hgroup := leads_group h.nested hopened' hlast
    exact ⟨_, (hgroup.cons_put hopened rfl).cons_put hawaits.opened rfl,
      fun looser _ => h.magnitude.mono (Nat.zero_le looser)⟩
  | parens h _ =>
    exact ⟨_, leads_group h.nested hawaits.opened hawaits.condition,
      fun looser _ => h.parens.mono (Nat.zero_le looser)⟩
  | signed sign h ih =>
    have hput : Awaits (outline.put sign.token) :=
      awaits_put hawaits.opened (by cases sign <;> decide) (by cases sign <;> decide)
    obtain ⟨next, hnext, -⟩ := ih hput
    exact ⟨next, hnext.cons_put hawaits.opened (by cases sign <;> rfl),
      fun looser _ => (h.signed sign).mono (Nat.zero_le looser)⟩
  | attempt h ih =>
    have hput : Awaits (outline.put .tryWord) := awaits_put hawaits.opened (by decide) (by decide)
    obtain ⟨next, hnext, -⟩ := ih hput
    exact ⟨next, hnext.cons_put hawaits.opened rfl, fun looser _ =>
      h.attempt.mono (Nat.zero_le looser)⟩
  | looser _ ih => exact ih hawaits
  | @binary operator _ _ _ _ hchain hleft hright ih ih' =>
    obtain ⟨middle, hmiddle, -⟩ := ih hawaits
    obtain ⟨next, hnext, -⟩ := ih' (operator.awaits_put hmiddle.opened)
    obtain ⟨hleads, hrank⟩ := hmiddle.join hnext
    refine ⟨next, hleads, fun looser hall => (Phrase.binary hchain hleft hright).mono ?_⟩
    exact operator.height_rank ▸ hall _ hrank
  | @compare operator _ _ _ _ hcompare hleft hright ih ih' =>
    obtain ⟨middle, hmiddle, -⟩ := ih hawaits
    obtain ⟨next, hnext, -⟩ := ih' (operator.awaits_put hmiddle.opened)
    obtain ⟨hleads, hrank⟩ := hmiddle.join hnext
    refine ⟨next, hleads, fun looser hall => (Phrase.compare hcompare hleft hright).mono ?_⟩
    exact operator.height_rank ▸ hall _ hrank
  | choice hcondition hconsequence hotherwise _ ih ih' =>
    have hempty : Awaits { outline.put .ifWord with last := none } :=
      ⟨by simp [hawaits.opened], rfl, by simp⟩
    obtain ⟨middle, hmiddle, -⟩ := ih hempty
    have helse : Awaits (middle.put .elseWord) := awaits_put hmiddle.opened (by decide) (by decide)
    obtain ⟨next, hnext, -⟩ := ih' helse
    obtain ⟨hleads, hrank⟩ := Leads.choice hawaits.opened hcondition.nested hmiddle hnext
    exact ⟨next, hleads, fun looser hall =>
      (Phrase.choice hcondition hconsequence hotherwise).mono (hall _ hrank)⟩

end BlockSynth.Zig
