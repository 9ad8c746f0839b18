import BlockSynth.Proofs.Zig.Flow
import BlockSynth.Proofs.Zig.Operand

/-! # Text that is read as a block

Text of whole statements is read as a block, wherever it stands among others. So the block of
emitted text is put together as the text is: by appending, by indenting, and by placing blocks
between the braces of a loop or of a conditional.
-/
namespace BlockSynth.Zig

/-! ### Lexemes -/

namespace Lexer

theorem run_cons (lexer : Lexer) (c : Char) (rest : List Char) :
    lexer.run (c :: rest) = (lexer.step c).bind fun result =>
      (result.2.run rest).map fun last => (result.1 ++ last.1, last.2) := by
  simp only [run]
  cases lexer.step c with
  | none => rfl
  | some result => cases hrest : result.2.run rest <;> simp [hrest]

theorem run_append (lexer : Lexer) (text more : List Char) :
    lexer.run (text ++ more) = (lexer.run text).bind fun result =>
      (result.2.run more).map fun last => (result.1 ++ last.1, last.2) := by
  induction text generalizing lexer with
  | nil => simp [run]
  | cons c rest ih =>
    rw [List.cons_append, run_cons, run_cons]
    cases lexer.step c with
    | none => rfl
    | some result =>
      simp only [Option.bind_some, ih]
      cases result.2.run rest <;> simp [Function.comp_def]

theorem run_of_run {lexer next : Lexer} {text : List Char} {emitted : List Lexeme}
    (h : lexer.run text = some (emitted, next)) (more : List Char) :
    lexer.run (text ++ more) = (next.run more).map fun last => (emitted ++ last.1, last.2) := by
  rw [run_append, h, Option.bind_some]

/-- Outside literals nothing is kept. -/
def IsFresh (lexer : Lexer) : Prop :=
  lexer.mode.isQuoted = false → lexer.raw = []

theorem step_of_mode {lexer : Lexer} {c : Char} {tokens : List Token} {mode : Mode}
    (h : lexer.mode.step c = some (tokens, mode)) :
    ∃ emitted next, lexer.step c = some (emitted, next) ∧ emitted.map Lexeme.token = tokens ∧
      next.mode = mode ∧ next.IsFresh := by
  refine ⟨_, _, by simp only [step, h]; rfl, by simp [Function.comp_def], rfl, fun hquoted => ?_⟩
  simp only [hquoted, Bool.false_eq_true, if_false]

/-- Lexemes are read as their tokens are. -/
theorem run_of_mode {lexer : Lexer} (hfresh : lexer.IsFresh) {text : List Char}
    {tokens : List Token} {mode : Mode} (h : lexer.mode.run text = some (tokens, mode)) :
    ∃ emitted next, lexer.run text = some (emitted, next) ∧ emitted.map Lexeme.token = tokens ∧
      next.mode = mode ∧ next.IsFresh := by
  induction text generalizing lexer tokens with
  | nil =>
    simp only [Mode.run, Option.some.injEq, Prod.mk.injEq] at h
    obtain ⟨rfl, rfl⟩ := h
    exact ⟨[], lexer, rfl, rfl, rfl, hfresh⟩
  | cons c rest ih =>
    rw [Mode.run_cons] at h
    obtain ⟨⟨first, middle⟩, hstep, hmap⟩ := Option.bind_eq_some_iff.mp h
    obtain ⟨⟨more, last⟩, hrest, heq⟩ := Option.map_eq_some_iff.mp hmap
    obtain ⟨rfl, rfl⟩ := Prod.mk.inj heq
    obtain ⟨emitted, next, hnext, htokens, rfl, hkept⟩ := step_of_mode hstep
    obtain ⟨others, final, hfinal, hothers, hmode, hlast⟩ := ih hkept hrest
    exact ⟨emitted ++ others,
      final, by simp [run_cons, hnext, hfinal], by simp [htokens, hothers], hmode, hlast⟩

theorem eq_of_isFresh {lexer : Lexer} (hfresh : lexer.IsFresh) {mode : Mode}
    (hmode : lexer.mode = mode) (hquoted : mode.isQuoted = false) : lexer = ⟨mode, []⟩ := by
  obtain ⟨mode', raw⟩ := lexer
  obtain rfl : mode' = mode := hmode
  obtain rfl : raw = [] := hfresh hquoted
  rfl

/-- A newline is followed by code. -/
theorem step_newline {lexer next : Lexer} {emitted : List Lexeme}
    (h : lexer.step '\n' = some (emitted, next)) : next = {} := by
  simp only [step, Option.bind_eq_bind] at h
  obtain ⟨⟨tokens, mode⟩, hstep, hnext⟩ := Option.bind_eq_some_iff.mp h
  obtain rfl : mode = .code := Mode.step_newline hstep
  exact (congrArg Prod.snd (Option.some.inj hnext)).symm

/-- Inside a literal all that is read is kept. -/
theorem run_quoted {mode last : Mode} (hquoted : mode.isQuoted = true) (raw : List Char)
    {text : List Char} (h : mode.run text = some ([], last)) (hlast : last.isQuoted = true) :
    run ⟨mode, raw⟩ text = some ([], ⟨last, raw ++ text⟩) := by
  induction text generalizing mode raw with
  | nil =>
    obtain rfl : mode = last := by simpa [Mode.run] using h
    simp [run]
  | cons c rest ih =>
    rw [Mode.run_cons] at h
    obtain ⟨⟨tokens, middle⟩, hstep, hmap⟩ := Option.bind_eq_some_iff.mp h
    obtain ⟨⟨more, final⟩, hrest, heq⟩ := Option.map_eq_some_iff.mp hmap
    obtain ⟨hnil, rfl⟩ := Prod.mk.inj heq
    obtain ⟨rfl, rfl⟩ := List.append_eq_nil_iff.mp hnil
    have hmiddle : middle.isQuoted = true := by
      cases mode with
      | literal quote =>
        simp only [Mode.step] at hstep
        split at hstep
        · simp at hstep
        · split at hstep
          · obtain ⟨-, rfl⟩ := Prod.mk.inj (Option.some.inj hstep)
            rfl
          · split at hstep
            · simp at hstep
            · obtain ⟨-, rfl⟩ := Prod.mk.inj (Option.some.inj hstep)
              rfl
      | escape quote =>
        simp only [Mode.step] at hstep
        split at hstep
        · simp at hstep
        · obtain ⟨-, rfl⟩ := Prod.mk.inj (Option.some.inj hstep)
          rfl
      | code => simp [Mode.isQuoted] at hquoted
      | word text => simp [Mode.isQuoted] at hquoted
      | operator first => simp [Mode.isQuoted] at hquoted
      | comment => simp [Mode.isQuoted] at hquoted
    simp [run_cons, step, hstep, hmiddle, ih hmiddle (raw ++ [c]) hrest]

end Lexer

/-- Text between two tokens, and its lexemes. -/
def Lexed (text : List Char) (lexemes : List Lexeme) : Prop :=
  Lexer.run {} text = some (lexemes, {})

theorem lexed_nil : Lexed [] [] := rfl

theorem Lexed.append {text more : List Char} {emitted others : List Lexeme} (h : Lexed text emitted)
    (hm : Lexed more others) : Lexed (text ++ more) (emitted ++ others) := by
  unfold Lexed
  rw [Lexer.run_of_run h, hm]
  rfl

theorem isFresh_start : Lexer.IsFresh {} := fun _ => rfl

theorem exists_lexed_of_run {text : List Char} {toks : List Token}
    (h : Mode.code.run text = some (toks, .code)) :
    ∃ emitted, Lexed text emitted ∧ emitted.map Lexeme.token = toks := by
  obtain ⟨emitted, next, hrun, htokens, hmode, hfresh⟩ := Lexer.run_of_mode isFresh_start h
  obtain rfl := Lexer.eq_of_isFresh hfresh hmode rfl
  exact ⟨emitted, hrun, htokens⟩

/-- Text without tokens, such as comments. -/
theorem lexed_of_run_nil {text : List Char} (h : Mode.code.run text = some ([], .code)) :
    Lexed text [] := by
  obtain ⟨emitted, hlexed, htokens⟩ := exists_lexed_of_run h
  obtain rfl := List.map_eq_nil_iff.mp htokens
  exact hlexed

theorem Lexer.run_prefixLines {mark : List Char} (hmark : IsIndent mark) (text : List Char) :
    run {} (Chars.prefixLines mark text) = run {} text := by
  have hskip : ∀ line, run {} (mark ++ line) = run {} line := by
    intro line
    rw [run_of_run (lexed_of_run_nil (Mode.run_indent hmark))]
    simp
  induction text using Chars.line_induction with
  | last line h =>
    rw [Chars.prefixLines_last mark h]
    split
    · rename_i hline
      rw [hline]
    · exact hskip line
  | more line rest h ih =>
    have hline : Chars.prefixLines mark (line ++ '\n' :: rest) =
        mark ++ (line ++ '\n' :: Chars.prefixLines mark rest) := by
      simp [Chars.prefixLines_line mark h]
    rw [hline, hskip, run_append, run_append]
    cases run {} line with
    | none => rfl
    | some result =>
      simp only [Option.bind_some, run_cons]
      cases hstep : result.2.step '\n' with
      | none => rfl
      | some next =>
        obtain ⟨emitted, after⟩ := next
        obtain rfl := step_newline hstep
        rw [Option.bind_some, Option.bind_some, ih]

theorem Lexed.indent {unit : String} (hunit : IsIndent unit.toList)
    {text : String} {emitted : List Lexeme} (h : Lexed text.toList emitted) :
    Lexed (Text.prefixLines unit text).toList emitted := by
  rw [Text.prefixLines, String.toList_ofList]
  exact (Lexer.run_prefixLines hunit _).trans h

/-- A word that ends before a character of another kind. -/
theorem Lexed.word {word : List Char} (hne : word ≠ [])
    (hword : ∀ c ∈ word, Chars.isWordChar c = true) {c : Char} (hc : Chars.isWordChar c = false)
    {rest : List Char} {emitted : List Lexeme} (h : Lexed (c :: rest) emitted) :
    Lexed (word ++ c :: rest) ({ token := .word word } :: emitted) := by
  obtain ⟨none, next, hrun, htokens, hmode, hfresh⟩ :=
    Lexer.run_of_mode isFresh_start (Mode.run_word hne hword)
  obtain rfl := Lexer.eq_of_isFresh hfresh hmode rfl
  obtain rfl := List.map_eq_nil_iff.mp htokens
  have hstep : Lexer.step ⟨.word word, []⟩ c =
      (Lexer.step {} c).map fun result => ({ token := .word word } :: result.1, result.2) := by
    simp [Lexer.step, Mode.step, hc]
  unfold Lexed at h ⊢
  rw [Lexer.run_cons] at h
  obtain ⟨result, hfirst, hrest⟩ := Option.bind_eq_some_iff.mp h
  obtain ⟨last, hlast, heq⟩ := Option.map_eq_some_iff.mp hrest
  obtain ⟨rfl, hend⟩ := Prod.mk.inj heq
  rw [Lexer.run_of_run hrun, Lexer.run_cons, hstep, hfirst]
  simp [hlast, hend]

theorem lexed_quote (raw : String) :
    Lexed (quote raw).toList [{ token := .literal, text := (quote raw).toList }] := by
  have htext : (quote raw).toList = '"' :: (raw.toList.flatMap (Chars.escape '"') ++ ['"']) :=
    String.toList_ofList
  have hopen : Lexer.step {} '"' = some ([], ⟨.literal .double, ['"']⟩) := by decide
  have hclose : ∀ kept : List Char, Lexer.run ⟨.literal .double, kept⟩ ['"'] =
      some ([{ token := .literal, text := kept ++ ['"'] }], {}) := by
    intro kept
    have hstep : (Mode.literal .double).step '"' = some ([.literal], .code) := by decide
    simp [Lexer.run, Lexer.step, hstep, Mode.isQuoted]
  unfold Lexed
  rw [htext, Lexer.run_cons, hopen, Option.bind_some,
    Lexer.run_of_run (Lexer.run_quoted rfl _ (Mode.run_escapes raw.toList) rfl), hclose]
  simp

/-! ### Reading in sequence -/

@[simp] theorem Block.append_done (block : Block) : block.append .done = block := by
  induction block with
  | done => rfl
  | simple code next ih => simp [append, ih]
  | jump kind next ih => simp [append, ih]
  | choice first second next _ _ ih => simp [append, ih]
  | loop body next _ ih => simp [append, ih]

theorem Block.append_assoc (block more last : Block) :
    (block.append more).append last = block.append (more.append last) := by
  induction block with
  | done => rfl
  | simple code next ih => simp [append, ih]
  | jump kind next ih => simp [append, ih]
  | choice first second next _ _ ih => simp [append, ih]
  | loop body next _ ih => simp [append, ih]

namespace Reading

theorem readAll_cons (reading : Reading) (lexeme : Lexeme) (rest : List Lexeme) :
    reading.readAll (lexeme :: rest) = (reading.step lexeme).bind (readAll · rest) := by
  simp [readAll]

theorem readAll_append (reading : Reading) (lexemes more : List Lexeme) :
    reading.readAll (lexemes ++ more) = (reading.readAll lexemes).bind (readAll · more) := by
  simp [readAll]

theorem readAll_of_readAll {reading next : Reading} {lexemes : List Lexeme}
    (h : reading.readAll lexemes = some next) (more : List Lexeme) :
    reading.readAll (lexemes ++ more) = next.readAll more := by
  rw [readAll_append, h, Option.bind_some]

/-- Where no `else` follows, a conditional might as well have been over. -/
theorem step_settle (reading : Reading) {lexeme : Lexeme} (h : lexeme.token ≠ .elseWord) :
    reading.settle.step lexeme = reading.step lexeme := by
  obtain ⟨frames, block, phase⟩ := reading
  cases phase with
  | behindArm arms => simp [settle, add, step, h]
  | ready => rfl
  | simple code opened => rfl
  | loopHead opened => rfl
  | armHead arms opened => rfl
  | otherwise arms => rfl
  | jumped kind => rfl

end Reading

/-- Lexemes that are read as a block, wherever they stand among statements. -/
structure Forms (lexemes : List Lexeme) (block : Block) : Prop where
  head : ∀ first ∈ lexemes.head?, first.token ≠ .elseWord
  read : ∀ frames before, ∃ reading,
    Reading.readAll ⟨frames, before, .ready⟩ lexemes = some reading ∧
    reading.settle = ⟨frames, before.append block, .ready⟩

theorem forms_nil : Forms [] .done where
  head first hfirst := by simp at hfirst
  read frames before := ⟨⟨frames, before, .ready⟩, rfl, by simp [Reading.settle]⟩

theorem Forms.append {lexemes more : List Lexeme} {block next : Block} (h : Forms lexemes block)
    (hm : Forms more next) : Forms (lexemes ++ more) (block.append next) where
  head first hfirst := by
    cases lexemes with
    | nil => exact hm.head first hfirst
    | cons lexeme rest => exact h.head first hfirst
  read frames before := by
    obtain ⟨middle, hmiddle, hsettle⟩ := h.read frames before
    obtain ⟨last, hlast, hdone⟩ := hm.read frames (before.append block)
    rw [Reading.readAll_of_readAll hmiddle, ← Block.append_assoc]
    cases more with
    | nil =>
      obtain rfl := Option.some.inj hlast
      exact ⟨middle, rfl, hsettle.trans hdone⟩
    | cons first rest =>
      refine ⟨last, ?_, hdone⟩
      rw [← hlast, ← hsettle, Reading.readAll_cons, Reading.readAll_cons,
        Reading.step_settle middle (hm.head first rfl)]

/-- A block between braces. -/
theorem Forms.readAll_close {body : List Lexeme} {block : Block} (h : Forms body block)
    {last : Lexeme} (hlast : last.token = .closing '\x7d') (frame : Frame) (frames : List Frame) :
    Reading.readAll ⟨frame :: frames, .done, .ready⟩ (body ++ [last]) =
      Reading.close ⟨frame :: frames, block, .ready⟩ := by
  obtain ⟨reading, hread, hsettle⟩ := h.read (frame :: frames) .done
  have hne : last.token ≠ .elseWord := by rw [hlast]; decide
  rw [Reading.readAll_of_readAll hread,
    Reading.readAll_cons, ← Reading.step_settle reading hne, hsettle]
  simp [Reading.step, Reading.start, hlast, Block.append, Reading.readAll]

/-! ### Expressions -/

def nestAll (opened : List Char) (toks : List Token) : Option (List Char) :=
  toks.foldlM nest opened

@[simp] theorem nestAll_nil (opened : List Char) : nestAll opened [] = some opened := rfl

theorem nestAll_cons (opened : List Char) (token : Token) (rest : List Token) :
    nestAll opened (token :: rest) = (nest opened token).bind (nestAll · rest) := by
  simp [nestAll]

theorem nestAll_append (opened : List Char) (toks more : List Token) :
    nestAll opened (toks ++ more) = (nestAll opened toks).bind (nestAll · more) := by
  simp [nestAll]

theorem isTame_of_nest {opened next : List Char}
    {token : Token} (h : nest opened token = some next) :
    token.isTame = true := by
  unfold nest at h
  split at h
  · assumption
  · simp at h

theorem ne_semicolon_of_isTame {token : Token} (h : token.isTame = true) : token ≠ .semicolon := by
  rintro rfl
  exact absurd h (by decide)

/-- The token of an expression in the head of a loop or a branch, in which a brace on
its own opens the block. -/
def headNest (opened : List Char) (token : Token) : Option (List Char) :=
  if token = .brace ∧ opened = [] then none else nest opened token

def headNestAll (opened : List Char) (toks : List Token) : Option (List Char) :=
  toks.foldlM headNest opened

@[simp] theorem headNestAll_nil (opened : List Char) : headNestAll opened [] = some opened := rfl

theorem headNestAll_cons (opened : List Char) (token : Token) (rest : List Token) :
    headNestAll opened (token :: rest) = (headNest opened token).bind (headNestAll · rest) := by
  simp [headNestAll]

theorem headNestAll_append (opened : List Char) (toks more : List Token) :
    headNestAll opened (toks ++ more) = (headNestAll opened toks).bind (headNestAll · more) := by
  simp [headNestAll]

/-! ### Statements -/

/-- Tokens that neither begin a statement with blocks nor end the block. -/
def Token.startsSimple (token : Token) : Bool :=
  token != .closing '\x7d' && !token.isLoopWord && token != .ifWord && token != .elseWord &&
    (Jump.ofToken? token).isNone

theorem Reading.readAll_simple {code lexemes : List Lexeme} {opened last : List Char}
    (h : nestAll opened (lexemes.map Lexeme.token) = some last)
    (frames : List Frame) (before : Block) :
    readAll ⟨frames, before, .simple code opened⟩ lexemes =
      some ⟨frames, before, .simple (code ++ lexemes) last⟩ := by
  induction lexemes generalizing code opened with
  | nil =>
    obtain rfl : opened = last := by simpa using h
    simp [readAll]
  | cons lexeme rest ih =>
    rw [List.map_cons, nestAll_cons] at h
    obtain ⟨middle, hfirst, hrest⟩ := Option.bind_eq_some_iff.mp h
    have hne : lexeme.token ≠ .semicolon := ne_semicolon_of_isTame (isTame_of_nest hfirst)
    have hstep : step ⟨frames, before, .simple code opened⟩ lexeme =
        some ⟨frames, before, .simple (code ++ [lexeme]) middle⟩ := by
      simp [step, hne, hfirst]
    rw [readAll_cons, hstep, Option.bind_some, ih hrest]
    simp

theorem forms_simple {first : Lexeme} {rest : List Lexeme}
    {last : Lexeme} (hstart : first.token.startsSimple = true)
    (hnest : nestAll [] ((first :: rest).map Lexeme.token) = some [])
    (hlast : last.token = .semicolon) :
    Forms (first :: rest ++ [last]) (.simple (first :: rest) .done) := by
  simp only [Token.startsSimple, Bool.and_eq_true, Bool.not_eq_true', bne_iff_ne, ne_eq,
    Option.isNone_iff_eq_none] at hstart
  obtain ⟨⟨⟨⟨hclose, hloop⟩, hif⟩, helse⟩, hjump⟩ := hstart
  rw [List.map_cons, nestAll_cons] at hnest
  obtain ⟨opened, hfirst, hrest⟩ := Option.bind_eq_some_iff.mp hnest
  refine ⟨fun lexeme hlexeme => ?_, fun frames before => ?_⟩
  · obtain rfl := Option.some.inj hlexeme
    exact helse
  · refine ⟨⟨frames, before.append (.simple (first :: rest) .done), .ready⟩, ?_, rfl⟩
    have hstep : Reading.step ⟨frames, before, .ready⟩ first =
        some ⟨frames, before, .simple [first] opened⟩ := by
      simp [Reading.step, Reading.start, hclose, hloop, hif, helse, hjump, hfirst]
    rw [List.cons_append, Reading.readAll_cons, hstep, Option.bind_some,
      Reading.readAll_of_readAll (Reading.readAll_simple hrest frames before), Reading.readAll_cons]
    simp [Reading.step, hlast, Reading.add, Reading.readAll]

theorem forms_jump {word last : Lexeme} {kind : Jump} (hword : Jump.ofToken? word.token = some kind)
    (hlast : last.token = .semicolon) : Forms [word, last] (.jump kind .done) := by
  have hcases : word.token = .word ['b', 'r', 'e', 'a', 'k'] ∨
      word.token = .word ['c', 'o', 'n', 't', 'i', 'n', 'u', 'e'] := by
    unfold Jump.ofToken? at hword
    split at hword
    · exact .inl ‹_›
    · exact .inr ‹_›
    · simp at hword
  have hothers : word.token ≠ .closing '\x7d' ∧
      word.token.isLoopWord = false ∧ word.token ≠ .ifWord ∧
      word.token ≠ .elseWord := by
    rcases hcases with h | h <;> rw [h] <;> decide
  obtain ⟨hclose, hloop, hif, helse⟩ := hothers
  refine ⟨fun lexeme hlexeme => ?_, fun frames before => ?_⟩
  · obtain rfl := Option.some.inj hlexeme
    exact helse
  · refine ⟨⟨frames, before.append (.jump kind .done), .ready⟩, ?_, rfl⟩
    simp [Reading.readAll, Reading.step, Reading.start, hclose, hloop, hif, helse, hword,
      hlast, Reading.add]

/-! ### Loops and branches -/

/-- The head of a loop or a branch, up to the brace. -/
theorem Reading.readAll_head {phase : List Char → Phase} {frames : List Frame} {before : Block}
    (hphase : ∀ opened lexeme, ¬(lexeme.token = .brace ∧ opened = []) →
      step ⟨frames, before, phase opened⟩ lexeme =
        (nest opened lexeme.token).map fun opened => ⟨frames, before, phase opened⟩)
    {lexemes : List Lexeme} {opened last : List Char}
    (h : headNestAll opened (lexemes.map Lexeme.token) = some last) :
    readAll ⟨frames, before, phase opened⟩ lexemes = some ⟨frames, before, phase last⟩ := by
  induction lexemes generalizing opened with
  | nil =>
    obtain rfl : opened = last := by simpa using h
    rfl
  | cons lexeme rest ih =>
    rw [List.map_cons, headNestAll_cons] at h
    obtain ⟨middle, hfirst, hrest⟩ := Option.bind_eq_some_iff.mp h
    unfold headNest at hfirst
    split at hfirst
    · simp at hfirst
    · rename_i hbrace
      rw [readAll_cons, hphase opened lexeme hbrace, hfirst]
      exact ih hrest

theorem forms_loop {first brace last : Lexeme} {head body : List Lexeme}
    {block : Block} (hfirst : first.token.isLoopWord = true)
    (hhead : headNestAll [] (head.map Lexeme.token) = some []) (hbrace : brace.token = .brace)
    (hbody : Forms body block) (hlast : last.token = .closing '\x7d') :
    Forms (first :: (head ++ brace :: (body ++ [last]))) (.loop block .done) := by
  have hothers : first.token ≠ .closing '\x7d' ∧ first.token ≠ .elseWord := by
    simp only [Token.isLoopWord, Bool.or_eq_true, beq_iff_eq] at hfirst
    rcases hfirst with h | h <;> rw [h] <;> decide
  refine ⟨fun lexeme hlexeme => ?_, fun frames before => ?_⟩
  · obtain rfl := Option.some.inj hlexeme
    exact hothers.2
  · refine ⟨⟨frames, before.append (.loop block .done), .ready⟩, ?_, rfl⟩
    have hstart : Reading.step ⟨frames, before, .ready⟩ first =
        some ⟨frames, before, .loopHead []⟩ := by
      simp [Reading.step, Reading.start, hothers.1, hfirst]
    have hopen : Reading.step ⟨frames, before, .loopHead []⟩ brace =
        some ⟨.loop before :: frames, .done, .ready⟩ := by
      simp [Reading.step, hbrace, Reading.enter]
    have hread := @Reading.readAll_head .loopHead frames before
      (fun opened lexeme hne => by simp only [Reading.step, if_neg hne]) head [] [] hhead
    rw [Reading.readAll_cons, hstart, Option.bind_some, Reading.readAll_of_readAll hread,
      Reading.readAll_cons, hopen, Option.bind_some, hbody.readAll_close hlast]
    rfl

/-- The lexemes of branches behind conditions, without the first `if`. -/
def Branches (lexemes : List Lexeme) (arms : List Block) : Prop :=
  ∀ frames before done, Reading.readAll ⟨frames, before, .armHead done []⟩ lexemes =
    some ⟨frames, before, .behindArm (done ++ arms)⟩

theorem branches_single {brace last : Lexeme} {head body : List Lexeme} {block : Block}
    (hhead : headNestAll [] (head.map Lexeme.token) = some []) (hbrace : brace.token = .brace)
    (hbody : Forms body block) (hlast : last.token = .closing '\x7d') :
    Branches (head ++ brace :: (body ++ [last])) [block] := by
  intro frames before done
  have hopen : Reading.step ⟨frames, before, .armHead done []⟩ brace =
      some ⟨.arm before done :: frames, .done, .ready⟩ := by
    simp [Reading.step, hbrace, Reading.enter]
  have hread := @Reading.readAll_head (.armHead done) frames before
    (fun opened lexeme hne => by simp only [Reading.step, if_neg hne]) head [] [] hhead
  rw [Reading.readAll_of_readAll hread, Reading.readAll_cons, hopen, Option.bind_some,
    hbody.readAll_close hlast]
  rfl

theorem Branches.more {lexemes more : List Lexeme} {arms others : List Block}
    {otherwise again : Lexeme} (h : Branches lexemes arms) (hm : Branches more others)
    (helse : otherwise.token = .elseWord) (hif : again.token = .ifWord) :
    Branches (lexemes ++ otherwise :: again :: more) (arms ++ others) := by
  intro frames before done
  rw [Reading.readAll_of_readAll (h frames before done), Reading.readAll_cons]
  have hstep : Reading.step ⟨frames, before, .behindArm (done ++ arms)⟩ otherwise =
      some ⟨frames, before, .otherwise (done ++ arms)⟩ := by
    simp [Reading.step, helse]
  have hagain : Reading.step ⟨frames, before, .otherwise (done ++ arms)⟩ again =
      some ⟨frames, before, .armHead (done ++ arms) []⟩ := by
    simp [Reading.step, hif]
  rw [hstep, Option.bind_some, Reading.readAll_cons, hagain, Option.bind_some,
    hm frames before (done ++ arms), List.append_assoc]

theorem Branches.start {lexemes : List Lexeme} {arms : List Block} (h : Branches lexemes arms)
    {first : Lexeme} (hfirst : first.token = .ifWord) (frames : List Frame) (before : Block) :
    Reading.readAll ⟨frames, before, .ready⟩ (first :: lexemes) =
      some ⟨frames, before, .behindArm arms⟩ := by
  have hothers : Token.ifWord ≠ .closing '\x7d' ∧ Token.ifWord.isLoopWord = false := by decide
  have hstart : Reading.step ⟨frames, before, .ready⟩ first =
      some ⟨frames, before, .armHead [] []⟩ := by
    simp [Reading.step, Reading.start, hfirst, hothers]
  rw [Reading.readAll_cons, hstart, Option.bind_some, h frames before [], List.nil_append]

/-- A conditional without `else`. -/
theorem Branches.forms {lexemes : List Lexeme} {arms : List Block}
    (h : Branches lexemes arms) {first : Lexeme} (hfirst : first.token = .ifWord) :
    Forms (first :: lexemes) (.choices arms .done) where
  head lexeme hlexeme := by
    obtain rfl := Option.some.inj hlexeme
    rw [hfirst]
    decide
  read frames before := ⟨_, h.start hfirst frames before, rfl⟩

/-- A conditional with `else`. -/
theorem Branches.forms_else {lexemes : List Lexeme} {arms : List Block}
    (h : Branches lexemes arms) {first otherwise brace last : Lexeme}
    {body : List Lexeme} {block : Block} (hfirst : first.token = .ifWord)
    (helse : otherwise.token = .elseWord) (hbrace : brace.token = .brace)
    (hbody : Forms body block) (hlast : last.token = .closing '\x7d') :
    Forms (first :: lexemes ++ otherwise :: brace :: (body ++ [last])) (.choices arms block) where
  head lexeme hlexeme := by
    obtain rfl := Option.some.inj hlexeme
    rw [hfirst]
    decide
  read frames before := by
    refine ⟨⟨frames, before.append (.choices arms block), .ready⟩, ?_, rfl⟩
    have hstep : Reading.step ⟨frames, before, .behindArm arms⟩ otherwise =
        some ⟨frames, before, .otherwise arms⟩ := by
      simp [Reading.step, helse]
    have hopen : Reading.step ⟨frames, before, .otherwise arms⟩ brace =
        some ⟨.last before arms :: frames, .done, .ready⟩ := by
      have hne : Token.brace ≠ .ifWord := by decide
      simp [Reading.step, hbrace, hne, Reading.enter]
    rw [Reading.readAll_of_readAll (h.start hfirst frames before), Reading.readAll_cons, hstep,
      Option.bind_some, Reading.readAll_cons, hopen, Option.bind_some, hbody.readAll_close hlast]
    rfl

end BlockSynth.Zig
