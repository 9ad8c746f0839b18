import BlockSynth.Proofs.Zig.Operand

/-! # Texts and their tokens

A text that is put together with spaces and symbols between its parts has the tokens
of the parts, one after the other.
-/
namespace BlockSynth.Zig

/-- The tokens of a text that is read from the given mode on. -/
def Mode.tokens (mode : Mode) (text : List Char) : Option (List Token) := do
  let (tokens, next) ← mode.run text
  return tokens ++ (← next.finish)

theorem Mode.tokens_append {mode next : Mode} {text : List Char} {emitted : List Token}
    (h : mode.run text = some (emitted, next)) (rest : List Char) :
    mode.tokens (text ++ rest) = (next.tokens rest).map (emitted ++ ·) := by
  unfold tokens
  rw [run_of_run h]
  simp only [Option.bind_eq_bind]
  cases next.run rest with
  | none => rfl
  | some last =>
    obtain ⟨tokens, final⟩ := last
    simp only [Option.map_some, Option.bind_some]
    cases final.finish <;> simp

/-- What follows does not go on with a word. -/
def Breaks (rest : List Char) : Prop :=
  ∀ c, rest.head? = some c → Chars.isWordChar c = false

theorem breaks_nil : Breaks [] := fun c hc => by simp at hc

theorem breaks_append {mark : List Char} (h : ∃ c, mark.head? = some c ∧ Chars.isWordChar c = false)
    (rest : List Char) : Breaks (mark ++ rest) := by
  obtain ⟨c, hhead, hc⟩ := h
  intro d hd
  rw [List.head?_append, hhead] at hd
  obtain rfl := Option.some.inj hd
  exact hc

/-- A text that can follow an operator and stand before whatever goes on with no word. -/
structure Lexes (text : List Char) (tokens : List Token) : Prop where
  leads : ∃ c, text.head? = some c ∧ leads c = true
  tokens_append : ∀ rest, Breaks rest →
    Mode.code.tokens (text ++ rest) = (Mode.code.tokens rest).map (tokens ++ ·)

theorem Lexes.ne_nil {text : List Char} {tokens : List Token}
    (h : Lexes text tokens) : text ≠ [] := by
  rintro rfl
  obtain ⟨c, hhead, -⟩ := h.leads
  simp at hhead

theorem Lexes.tokens_eq {text : List Char} {toks : List Token} (h : Lexes text toks) :
    tokens text = some toks := by
  have hall := h.tokens_append [] breaks_nil
  rw [List.append_nil] at hall
  exact hall.trans (congrArg some (List.append_nil toks))

/-! ### Words -/

theorem Mode.tokens_word {text rest : List Char} (h : Breaks rest) :
    (Mode.word text).tokens rest = (Mode.code.tokens rest).map (.word text :: ·) := by
  cases rest with
  | nil => rfl
  | cons c rest =>
    have hc := h c rfl
    have hword : (Mode.word text).run [c] = some (.word text :: (start c).1, (start c).2) := by
      simp [run, step, hc]
    have hcode : Mode.code.run [c] = some (start c) := by
      simp [run, step]
    have hleft := tokens_append hword rest
    have hright := tokens_append hcode rest
    rw [List.singleton_append] at hleft hright
    rw [hleft, hright, Option.map_map]
    rfl

theorem IsPlain.lexes {text : List Char} (h : IsPlain text) : Lexes text [.word text] := by
  refine ⟨h.leads, fun rest hrest => ?_⟩
  rw [Mode.tokens_append (Mode.run_word h.ne_nil h.isWordChar),
    Mode.tokens_word hrest, Option.map_map]
  rfl

/-- An operand can be read on its own. -/
theorem Fits.lexes {fine : Rank → Prop} {text : List Char} (h : Fits fine text) {toks : List Token}
    (htokens : Zig.tokens text = some toks) : Lexes text toks := by
  obtain ⟨emitted, mode, hrun, hset, heq⟩ := h.run_eq
  obtain rfl := Option.some.inj (heq.symm.trans htokens)
  refine ⟨h.leads, fun rest hrest => ?_⟩
  rw [Mode.tokens_append hrun]
  cases mode with
  | code => simp [Mode.pending]
  | word word =>
    rw [Mode.tokens_word hrest, Option.map_map]
    congr 1
    funext tokens
    simp [Mode.pending]
  | operator first => exact hset.elim
  | literal quote => exact hset.elim
  | escape quote => exact hset.elim
  | comment => exact hset.elim

/-! ### Marks around and between -/

section

variable {text more mark : List Char} {toks toks' emitted : List Token}

theorem leads_append (h : ∃ c, text.head? = some c ∧ Zig.leads c = true) (more : List Char) :
    ∃ c, (text ++ more).head? = some c ∧ Zig.leads c = true := by
  obtain ⟨c, hhead, hc⟩ := h
  exact ⟨c, by rw [List.head?_append, hhead]; rfl, hc⟩

theorem Lexes.behind (h : Lexes text toks) (hmark : Mode.code.run mark = some (emitted, .code))
    (hleads : ∃ c, mark.head? = some c ∧ Zig.leads c = true) :
    Lexes (mark ++ text) (emitted ++ toks) := by
  refine ⟨leads_append hleads text, fun rest hrest => ?_⟩
  rw [List.append_assoc, Mode.tokens_append hmark, h.tokens_append rest hrest, Option.map_map]
  cases Mode.code.tokens rest <;> simp

theorem Lexes.before (h : Lexes text toks) (hmark : Mode.code.run mark = some (emitted, .code))
    (hbreaks : ∃ c, mark.head? = some c ∧ Chars.isWordChar c = false) :
    Lexes (text ++ mark) (toks ++ emitted) := by
  refine ⟨leads_append h.leads mark, fun rest _ => ?_⟩
  rw [List.append_assoc, h.tokens_append _ (breaks_append hbreaks rest), Mode.tokens_append hmark,
    Option.map_map]
  cases Mode.code.tokens rest <;> simp

theorem Lexes.between (h : Lexes text toks) (h' : Lexes more toks')
    (hmark : Mode.code.run mark = some (emitted, .code))
    (hbreaks : ∃ c, mark.head? = some c ∧ Chars.isWordChar c = false) :
    Lexes (text ++ (mark ++ more)) (toks ++ (emitted ++ toks')) := by
  refine ⟨leads_append h.leads _, fun rest hrest => ?_⟩
  rw [List.append_assoc, List.append_assoc, h.tokens_append _ (breaks_append hbreaks _),
    Mode.tokens_append hmark, h'.tokens_append rest hrest, Option.map_map, Option.map_map]
  cases Mode.code.tokens rest <;> simp

/-- A sign that some characters complete to an operator, but none that leads a text. -/
theorem Lexes.not (h : Lexes text toks) : Lexes ('!' :: text) (.symbol ['!'] :: toks) := by
  refine ⟨⟨'!', rfl, by decide⟩, fun rest hrest => ?_⟩
  obtain ⟨c, hhead, hc⟩ := h.leads
  obtain ⟨tail, rfl⟩ : ∃ tail, text = c :: tail := List.head?_eq_some_iff.mp hhead
  simp only [Zig.leads, Bool.not_eq_true', Bool.or_eq_false_iff, beq_eq_false_iff_ne] at hc
  have hsign : Mode.code.run ['!', c] =
      some (.symbol ['!'] :: (Mode.start c).1, (Mode.start c).2) := by
    have hpair : isPair '!' c = false := by simp [isPair, hc.1.1]
    have hstart : Mode.start '!' = ([], .operator '!') := by decide
    simp [Mode.run, Mode.step, hstart, hpair]
  have hcode : Mode.code.run [c] = some ((Mode.start c).1, (Mode.start c).2) := by
    simp [Mode.run, Mode.step]
  have hleft := Mode.tokens_append hsign (tail ++ rest)
  have hright := Mode.tokens_append hcode (tail ++ rest)
  have htext := h.tokens_append rest hrest
  simp only [List.cons_append, List.nil_append] at hleft hright htext ⊢
  have hsplit : ((Mode.start c).2.tokens (tail ++ rest)).map
      (.symbol ['!'] :: (Mode.start c).1 ++ ·) =
      (((Mode.start c).2.tokens (tail ++ rest)).map ((Mode.start c).1 ++ ·)).map
        (.symbol ['!'] :: ·) := by
    rw [Option.map_map]
    rfl
  calc Mode.code.tokens ('!' :: c :: (tail ++ rest))
      = ((Mode.start c).2.tokens (tail ++ rest)).map (.symbol ['!'] :: (Mode.start c).1 ++ ·) := hleft
    _ = (Mode.code.tokens (c :: (tail ++ rest))).map (.symbol ['!'] :: ·) := by rw [hsplit, hright]
    _ = (Mode.code.tokens rest).map (.symbol ['!'] :: toks ++ ·) := by
      rw [htext, Option.map_map]
      rfl

end

end BlockSynth.Zig
