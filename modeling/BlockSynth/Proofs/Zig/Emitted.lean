import BlockSynth.Proofs.Zig.Sketch
import BlockSynth.Proofs.Zig.Written

/-! # Emitted statements as blocks

Whether emitted text is a statement that only goes on, or the head of a loop or a
branch, is decided on the items of its pieces: an operand inside it is read over,
because it closes what it opens and holds no control word. Statements that only go on
are quiet, as no call of a name with a literal is among them.
-/
namespace BlockSynth.Zig

/-! ### Operands inside statements -/

theorem nest_outer {opened next : List Char} {token : Token} (h : nest opened token = some next)
    (outer : List Char) : nest (opened ++ outer) token = some (next ++ outer) := by
  have htame := isTame_of_nest h
  unfold nest at h ⊢
  rw [if_pos htame] at h ⊢
  cases token with
  | opening bracket =>
    obtain rfl := Option.some.inj h
    rfl
  | closing bracket =>
    cases opened with
    | nil => simp at h
    | cons innermost rest =>
      simp only [List.cons_append] at h ⊢
      split at h
      · rename_i hmatch
        obtain rfl := Option.some.inj h
        rw [if_pos hmatch]
      · simp at h
  | word text =>
    obtain rfl := Option.some.inj h
    rfl
  | symbol text =>
    obtain rfl := Option.some.inj h
    rfl
  | literal =>
    obtain rfl := Option.some.inj h
    rfl

theorem nestAll_outer {opened next : List Char} {toks : List Token}
    (h : nestAll opened toks = some next) (outer : List Char) :
    nestAll (opened ++ outer) toks = some (next ++ outer) := by
  induction toks generalizing opened with
  | nil =>
    obtain rfl : opened = next := by simpa using h
    rfl
  | cons token rest ih =>
    rw [nestAll_cons] at h
    obtain ⟨middle, hfirst, hrest⟩ := Option.bind_eq_some_iff.mp h
    rw [nestAll_cons, nest_outer hfirst, Option.bind_some, ih hrest]

/-- Inside brackets no brace opens a block. -/
theorem headNestAll_outer {opened next : List Char} {toks : List Token}
    (h : nestAll opened toks = some next) {outer : List Char} (houter : outer ≠ []) :
    headNestAll (opened ++ outer) toks = some (next ++ outer) := by
  induction toks generalizing opened with
  | nil =>
    obtain rfl : opened = next := by simpa using h
    rfl
  | cons token rest ih =>
    rw [nestAll_cons] at h
    obtain ⟨middle, hfirst, hrest⟩ := Option.bind_eq_some_iff.mp h
    have hinside : ¬(token = .brace ∧ opened ++ outer = []) := by simp [houter]
    rw [headNestAll_cons, headNest, if_neg hinside, nest_outer hfirst, Option.bind_some, ih hrest]

theorem nest_of_add {outline next : Outline} {token : Token} (htame : token.isTame = true)
    (h : outline.add token = some next) : nest outline.opened token = some next.opened := by
  unfold nest
  rw [if_pos htame]
  cases token with
  | opening bracket =>
    obtain rfl := Option.some.inj h
    rfl
  | closing bracket =>
    simp only [Outline.add] at h
    cases hopened : outline.opened with
    | nil => simp [hopened] at h
    | cons innermost rest =>
      simp only [hopened] at h ⊢
      split at h
      · rename_i hmatch
        obtain rfl := Option.some.inj h
        rw [if_pos hmatch]
      · simp at h
  | word text =>
    obtain rfl := Option.some.inj h
    simp
  | symbol text =>
    obtain rfl := Option.some.inj h
    simp
  | literal =>
    obtain rfl := Option.some.inj h
    simp

theorem nestAll_of_addAll {outline next : Outline} {toks : List Token}
    (htame : ∀ token ∈ toks, token.isBare = true) (h : outline.addAll toks = some next) :
    nestAll outline.opened toks = some next.opened := by
  induction toks generalizing outline with
  | nil =>
    obtain rfl := Option.some.inj h
    rfl
  | cons token rest ih =>
    rw [List.forall_mem_cons] at htame
    rw [Outline.addAll_cons] at h
    obtain ⟨middle, hfirst, hrest⟩ := Option.bind_eq_some_iff.mp h
    rw [nestAll_cons, nest_of_add (Token.isTame_of_isBare htame.1) hfirst,
      Option.bind_some, ih htame.2 hrest]

theorem Operand.exists_outline {bound : Rank} {text : List Char}
    (h : Operand bound text) {toks : List Token} (htoks : tokens text = some toks) :
    ∃ outline, Outline.addAll {} toks = some outline ∧ outline.opened = [] ∧
      ∀ rank ∈ outline.exposed, rank.level ≤ bound.level := by
  obtain ⟨outline, houtline, hrest⟩ := h.outline?_eq
  refine ⟨outline, ?_, hrest⟩
  simpa [outline?, htoks] using houtline

theorem Operand.nestAll_eq {bound : Rank} {text : List Char} (h : Operand bound text)
    {toks : List Token} (htoks : tokens text = some toks) : nestAll [] toks = some [] := by
  obtain ⟨outline, hadd, hnil, -⟩ := h.exists_outline htoks
  have hnest := nestAll_of_addAll (h.tame toks htoks) hadd
  rwa [hnil] at hnest

theorem Outline.exposed_subset_add {outline next : Outline}
    {token : Token} (h : outline.add token = some next) :
    outline.exposed ⊆ next.exposed := by
  have hput : ∀ token, outline.exposed ⊆ (outline.put token).exposed := by
    intro token
    unfold put
    split
    · exact List.subset_append_right _ _
    · exact List.Subset.refl _
  cases token with
  | opening bracket =>
    obtain rfl := Option.some.inj h
    exact List.Subset.refl _
  | closing bracket =>
    simp only [add] at h
    split at h
    · simp at h
    · split at h
      · obtain rfl := Option.some.inj h
        exact List.Subset.refl _
      · simp at h
  | word text =>
    obtain rfl := Option.some.inj h
    exact hput _
  | symbol text =>
    obtain rfl := Option.some.inj h
    exact hput _
  | literal =>
    obtain rfl := Option.some.inj h
    exact hput _

theorem Outline.exposed_subset_addAll {outline next : Outline} {toks : List Token}
    (h : outline.addAll toks = some next) : outline.exposed ⊆ next.exposed := by
  induction toks generalizing outline with
  | nil =>
    obtain rfl := Option.some.inj h
    exact List.Subset.refl _
  | cons token rest ih =>
    rw [addAll_cons] at h
    obtain ⟨middle, hfirst, hrest⟩ := Option.bind_eq_some_iff.mp h
    exact List.Subset.trans (exposed_subset_add hfirst) (ih hrest)

/-- An operand that exposes no condition can begin a statement that only goes on. -/
theorem Operand.startsSimple {bound : Rank} {text : List Char} (h : Operand bound text)
    (hbound : bound.level < Rank.conditional.level) {first : Token} {rest : List Token}
    (htoks : tokens text = some (first :: rest)) : first.startsSimple = true := by
  obtain ⟨outline, hadd, -, hexposed⟩ := h.exists_outline htoks
  have hnest := h.nestAll_eq htoks
  have htame : first.isTame = true :=
    Token.isTame_of_isBare (h.tame _ htoks first List.mem_cons_self)
  have hconditional : ∀ token,
      Outline.add {} token = some { last := some token, exposed := [.conditional] } →
      first ≠ token := by
    rintro token htoken rfl
    rw [Outline.addAll_cons, htoken, Option.bind_some] at hadd
    have hmem : Rank.conditional ∈ outline.exposed :=
      Outline.exposed_subset_addAll hadd List.mem_cons_self
    exact absurd (hexposed _ hmem) (Nat.not_le.mpr hbound)
  have hif : first ≠ .ifWord := hconditional _ (by decide)
  have helse : first ≠ .elseWord := hconditional _ (by decide)
  have hclose : first ≠ .closing '\x7d' := by
    rintro rfl
    simp [nestAll_cons, nest, Token.isTame] at hnest
  have hwords : ∀ text, first = .word text → text ∉ controlWords := by
    rintro text rfl
    exact Token.isTame_word.mp htame
  have hloop : first.isLoopWord = false := by
    have hwhile : first ≠ .word ['w', 'h', 'i', 'l', 'e'] := fun heq => hwords _ heq (by decide)
    have hfor : first ≠ .word ['f', 'o', 'r'] := fun heq => hwords _ heq (by decide)
    simp [Token.isLoopWord, hwhile, hfor]
  have hjump : Jump.ofToken? first = none := by
    unfold Jump.ofToken?
    split
    · exact absurd (by decide) (hwords _ rfl)
    · exact absurd (by decide) (hwords _ rfl)
    · rfl
  simp [Token.startsSimple, hif, helse, hclose, hloop, hjump]

/-! ### Items -/

def Item.nest (opened : List Char) : Item → Option (List Char)
  | fixed token => Zig.nest opened token
  | operand _ => some opened

def Item.headNest (opened : List Char) : Item → Option (List Char)
  | fixed token => Zig.headNest opened token
  | operand _ => if opened = [] then none else some opened

/-- What takes one list of tokens after the other takes what the items stand for as it
takes the items. -/
theorem Filled.through {items : List Item} {toks : List Token}
    (h : Filled items toks) {takes : List Char → List Token → Option (List Char)}
    {step : List Char → Item → Option (List Char)} (hnil : ∀ opened, takes opened [] = some opened)
    (happend : ∀ opened toks more,
      takes opened (toks ++ more) = (takes opened toks).bind fun next => takes next more)
    (hitem : ∀ opened item part next, item.Of part → step opened item = some next →
      takes opened part = some next) {opened next : List Char}
    (hsteps : items.foldlM step opened = some next) : takes opened toks = some next := by
  induction items generalizing toks opened with
  | nil =>
    obtain rfl : toks = [] := h
    obtain rfl := Option.some.inj hsteps
    exact hnil opened
  | cons item rest ih =>
    obtain ⟨part, more, rfl, hpart, hmore⟩ := h
    rw [List.foldlM_cons, Option.bind_eq_bind] at hsteps
    obtain ⟨middle, hfirst, hrest⟩ := Option.bind_eq_some_iff.mp hsteps
    rw [happend, hitem opened item part middle hpart hfirst, Option.bind_some, ih hmore hrest]

theorem Filled.nestAll {items : List Item} {toks : List Token} (h : Filled items toks)
    {opened next : List Char} (hnest : items.foldlM Item.nest opened = some next) :
    nestAll opened toks = some next := by
  refine h.through (fun _ => rfl) (fun _ _ _ => nestAll_append ..)
    (fun opened item part next hpart hstep => ?_) hnest
  cases item with
  | fixed token =>
    obtain rfl : part = [token] := hpart
    rw [nestAll_cons, show Zig.nest opened token = some next from hstep]
    rfl
  | operand bound =>
    obtain ⟨text, hoperand, htoks⟩ := hpart
    obtain rfl := Option.some.inj hstep
    exact nestAll_outer (hoperand.nestAll_eq htoks) opened

theorem Filled.headNestAll {items : List Item} {toks : List Token} (h : Filled items toks)
    {opened next : List Char} (hnest : items.foldlM Item.headNest opened = some next) :
    headNestAll opened toks = some next := by
  refine h.through (fun _ => rfl) (fun _ _ _ => headNestAll_append ..)
    (fun opened item part next hpart hstep => ?_) hnest
  cases item with
  | fixed token =>
    obtain rfl : part = [token] := hpart
    rw [headNestAll_cons, show Zig.headNest opened token = some next from hstep]
    rfl
  | operand bound =>
    obtain ⟨text, hoperand, htoks⟩ := hpart
    simp only [Item.headNest] at hstep
    split at hstep
    · simp at hstep
    · rename_i hopened
      obtain rfl := Option.some.inj hstep
      exact headNestAll_outer (hoperand.nestAll_eq htoks) hopened

/-- Whether a statement that begins like this only goes on. An operand may turn out to be empty, so
what follows it counts as well. -/
def startsSimple : List Item → Bool
  | [] => false
  | .fixed token :: _ => token.startsSimple
  | .operand bound :: rest => bound.level < Rank.conditional.level && startsSimple rest

theorem Filled.startsSimple {items : List Item} {toks : List Token} (h : Filled items toks)
    (hstart : startsSimple items = true) :
    ∃ first rest, toks = first :: rest ∧ first.startsSimple = true := by
  induction items generalizing toks with
  | nil => simp [Zig.startsSimple] at hstart
  | cons item rest ih =>
    obtain ⟨part, more, rfl, hpart, hmore⟩ := h
    cases item with
    | fixed token =>
      obtain rfl : part = [token] := hpart
      exact ⟨token, more, rfl, hstart⟩
    | operand bound =>
      obtain ⟨text, hoperand, htoks⟩ := hpart
      simp only [Zig.startsSimple, Bool.and_eq_true, decide_eq_true_eq] at hstart
      cases part with
      | nil => exact ih hmore hstart.2
      | cons first others =>
        exact ⟨first, others ++ more, rfl, hoperand.startsSimple hstart.1 htoks⟩

/-- A call of a name with one literal. -/
def IsCall (toks : List Token) : Prop :=
  ∃ word, IsPlain word ∧ toks = [.word word, .opening '(', .literal, .closing ')']

/-- Tokens that are not part of such a call. -/
def Item.isBold : Item → Bool
  | fixed (.symbol _) => true
  | fixed (.word text) => (operators.lookup (.word text)).isSome
  | _ => false

theorem Filled.not_isCall {items : List Item} {toks : List Token} (h : Filled items toks)
    (hbold : items.any Item.isBold = true) : ¬IsCall toks := by
  rintro ⟨word, hword, rfl⟩
  have hmem : ∀ {items : List Item} {toks : List Token}, Filled items toks → ∀ token,
      .fixed token ∈ items → token ∈ toks := by
    intro items
    induction items with
    | nil => intro _ _ _ hitem; simp at hitem
    | cons item rest ih =>
      rintro _ ⟨part, more, rfl, hpart, hmore⟩ token hitem
      rcases List.mem_cons.mp hitem with rfl | hitem
      · obtain rfl : part = [token] := hpart
        exact List.mem_append_left _ List.mem_cons_self
      · exact List.mem_append_right _ (ih hmore token hitem)
  obtain ⟨item, hitem, hitemBold⟩ := List.any_eq_true.mp hbold
  cases item with
  | operand bound => simp [Item.isBold] at hitemBold
  | fixed token =>
    have htoken := hmem h token hitem
    simp only [List.mem_cons, List.not_mem_nil, or_false] at htoken
    rcases htoken with rfl | rfl | rfl | rfl
    · simp [Item.isBold, hword.lookup] at hitemBold
    all_goals simp [Item.isBold] at hitemBold

/-! ### Text -/

theorem exists_lexed_of_spells (code : String) {pieces : List Piece} [Spells code pieces]
    {items : List Item} (hitems : closedItems? pieces = some items) :
    ∃ emitted, Lexed code.toList emitted ∧ Filled items (emitted.map Lexeme.token) := by
  obtain ⟨toks, hrun, hfilled⟩ := exists_run_of_spells code hitems
  obtain ⟨emitted, hlexed, rfl⟩ := exists_lexed_of_run hrun
  exact ⟨emitted, hlexed, hfilled⟩

/-- Text of whole statements, and its block. -/
def Written (text : String) (block : Block) : Prop :=
  ∃ emitted, Lexed text.toList emitted ∧ Forms emitted block

theorem written_empty : Written "" .done :=
  ⟨[], lexed_nil, forms_nil⟩

theorem Written.append {text more : String} {block next : Block} (h : Written text block)
    (hm : Written more next) : Written (text ++ more) (block.append next) := by
  obtain ⟨emitted, hlexed, hforms⟩ := h
  obtain ⟨others, hmore, hnext⟩ := hm
  refine ⟨emitted ++ others, ?_, hforms.append hnext⟩
  rw [String.toList_append]
  exact hlexed.append hmore

theorem Written.indent {unit text : String} {block : Block} (hunit : IsIndent unit.toList)
    (h : Written text block) : Written (Text.prefixLines unit text) block := by
  obtain ⟨emitted, hlexed, hforms⟩ := h
  exact ⟨emitted, hlexed.indent hunit, hforms⟩

/-- Text without tokens adds nothing. -/
theorem written_of_run_nil {text : String} (h : Mode.code.run text.toList = some ([], .code)) :
    Written text .done :=
  ⟨[], lexed_of_run_nil h, forms_nil⟩

theorem written_newline : Written "\n" .done :=
  written_of_run_nil (by decide)

theorem Written.program?_eq {text : String} {block : Block} (h : Written text block) :
    program? text.toList = some block := by
  obtain ⟨emitted, hlexed, hforms⟩ := h
  obtain ⟨reading, hread, hsettle⟩ := hforms.read [] .done
  have hlexemes : lexemes text.toList = some emitted := by
    have hrun : Lexer.run {} text.toList = some (emitted, {}) := hlexed
    simp [lexemes, hrun, Mode.finish]
  have hfinish : reading.finish = some block := by
    unfold Reading.finish
    rw [hsettle]
    rfl
  simp [program?, hlexemes, show Reading.readAll {} emitted = some reading from hread, hfinish]

/-! ### Quiet statements -/

/-- A block that every path goes through to the end, and that has neither loops nor
calls of a name with a literal. -/
structure Block.Quiet (block : Block) : Prop where
  loops : block.loops = []
  runs : ∀ trace exit, block.Runs trace exit →
    exit = none ∧ ∀ event ∈ trace, ∃ code, event = .did code ∧ ¬IsCall (code.map Lexeme.token)

theorem Block.loops_append (block more : Block) :
    (block.append more).loops = block.loops ++ more.loops := by
  induction block with
  | done => rfl
  | simple code next ih => exact ih
  | jump kind next ih => exact ih
  | choice first second next _ _ ih => simp [append, loops, ih]
  | loop body next _ ih => simp [append, loops, ih]

/-- A path through two blocks goes through the first to the end, or leaves it for good. -/
theorem Block.runs_append {block more : Block} {trace : List Event} {exit : Option Jump}
    (h : (block.append more).Runs trace exit) :
    (∃ first second, trace = first ++ second ∧ block.Runs first none ∧ more.Runs second exit) ∨
      ∃ kind, exit = some kind ∧ block.Runs trace (some kind) := by
  induction block generalizing trace exit with
  | done => exact .inl ⟨[], trace, rfl, .done, h⟩
  | simple code next ih =>
    cases h with
    | simple hnext =>
      rcases ih hnext with ⟨first, second, rfl, hfirst, hsecond⟩ | ⟨kind, rfl, hleft⟩
      · exact .inl ⟨.did code :: first, second, rfl, .simple hfirst, hsecond⟩
      · exact .inr ⟨kind, rfl, .simple hleft⟩
  | jump kind next _ =>
    cases h with
    | jump => exact .inr ⟨kind, rfl, .jump⟩
  | choice first second next _ _ ih =>
    cases h with
    | first hbranch hnext =>
      rcases ih hnext with ⟨rest, last, rfl, hrest, hlast⟩ | ⟨kind, rfl, hleft⟩
      · exact .inl ⟨_ ++ rest, last, by simp, .first hbranch hrest, hlast⟩
      · exact .inr ⟨kind, rfl, .first hbranch hleft⟩
    | first_jump hbranch => exact .inr ⟨_, rfl, .first_jump hbranch⟩
    | second hbranch hnext =>
      rcases ih hnext with ⟨rest, last, rfl, hrest, hlast⟩ | ⟨kind, rfl, hleft⟩
      · exact .inl ⟨_ ++ rest, last, by simp, .second hbranch hrest, hlast⟩
      · exact .inr ⟨kind, rfl, .second hbranch hleft⟩
    | second_jump hbranch => exact .inr ⟨_, rfl, .second_jump hbranch⟩
  | loop body next _ ih =>
    generalize hwhole : (Block.loop body next).append more = whole at h
    induction h with
    | loop_over hnext =>
      obtain ⟨rfl, rfl⟩ := Block.loop.inj hwhole
      rcases ih hnext with ⟨first, second, rfl, hfirst, hsecond⟩ | ⟨kind, rfl, hleft⟩
      · exact .inl ⟨first, second, rfl, .loop_over hfirst, hsecond⟩
      · exact .inr ⟨kind, rfl, .loop_over hleft⟩
    | loop_left hbody hnext =>
      obtain ⟨rfl, rfl⟩ := Block.loop.inj hwhole
      rcases ih hnext with ⟨first, second, rfl, hfirst, hsecond⟩ | ⟨kind, rfl, hleft⟩
      · exact .inl ⟨_, second, by simp, .loop_left hbody hfirst, hsecond⟩
      · exact .inr ⟨kind, rfl, .loop_left hbody hleft⟩
    | loop_round hbody hround _ _ ihnext =>
      obtain ⟨rfl, rfl⟩ := Block.loop.inj hwhole
      rcases ihnext rfl with ⟨first, second, rfl, hfirst, hsecond⟩ | ⟨kind, rfl, hleft⟩
      · exact .inl ⟨_, second, by simp, .loop_round hbody hround hfirst, hsecond⟩
      · exact .inr ⟨kind, rfl, .loop_round hbody hround hleft⟩
    | done => simp [append] at hwhole
    | simple => simp [append] at hwhole
    | jump => simp [append] at hwhole
    | first => simp [append] at hwhole
    | first_jump => simp [append] at hwhole
    | second => simp [append] at hwhole
    | second_jump => simp [append] at hwhole

theorem Block.quiet_done : Quiet .done where
  loops := rfl
  runs trace exit h := by
    cases h with
    | done => exact ⟨rfl, List.forall_mem_nil _⟩

theorem Block.quiet_simple {code : List Lexeme} (h : ¬IsCall (code.map Lexeme.token)) :
    Quiet (.simple code .done) where
  loops := rfl
  runs trace exit hruns := by
    cases hruns with
    | simple hnext =>
      cases hnext with
      | done => exact ⟨rfl, List.forall_mem_singleton.mpr ⟨code, rfl, h⟩⟩

theorem Block.Quiet.append {block more : Block} (h : block.Quiet) (hm : more.Quiet) :
    (block.append more).Quiet where
  loops := by rw [loops_append, h.loops, hm.loops, List.append_nil]
  runs trace exit hruns := by
    rcases runs_append hruns with ⟨first, second, rfl, hfirst, hsecond⟩ | ⟨kind, rfl, hleft⟩
    · exact ⟨(hm.runs _ _ hsecond).1,
        List.forall_mem_append.mpr ⟨(h.runs _ _ hfirst).2, (hm.runs _ _ hsecond).2⟩⟩
    · exact absurd (h.runs _ _ hleft).1 (by simp)

/-- A branch that may be taken. -/
theorem Block.Quiet.choice {block : Block} (h : block.Quiet) : Quiet (choices [block] .done) where
  loops := by simp [choices, Block.loops, h.loops]
  runs trace exit hruns := by
    have hdone : ∀ {trace exit}, Block.done.Runs trace exit → trace = [] ∧ exit = none := by
      rintro _ _ ⟨⟩
      exact ⟨rfl, rfl⟩
    cases hruns with
    | first hbranch hnext =>
      obtain ⟨rfl, rfl⟩ := hdone hnext
      rw [List.append_nil]
      exact ⟨rfl, (h.runs _ _ hbranch).2⟩
    | first_jump hbranch => exact absurd (h.runs _ _ hbranch).1 (by simp)
    | second hbranch hnext =>
      obtain ⟨rfl, -⟩ := hdone hbranch
      obtain ⟨rfl, rfl⟩ := hdone hnext
      exact ⟨rfl, List.forall_mem_nil _⟩
    | second_jump hbranch => exact absurd (hdone hbranch).2 (by simp)

/-- Text of quiet statements. -/
def Idle (text : String) : Prop :=
  ∃ block, Written text block ∧ block.Quiet

theorem idle_empty : Idle "" :=
  ⟨.done, written_empty, Block.quiet_done⟩

theorem Idle.append {text more : String} (h : Idle text) (hm : Idle more) :
    Idle (text ++ more) := by
  obtain ⟨block, hwritten, hquiet⟩ := h
  obtain ⟨next, hmore, hnext⟩ := hm
  exact ⟨_, hwritten.append hmore, hquiet.append hnext⟩

def isStatement (items : List Item) : Bool :=
  items.getLast? == some (.fixed .semicolon) && startsSimple items.dropLast &&
    (items.dropLast.foldlM Item.nest [] == some [] && items.dropLast.any Item.isBold)

theorem idle_of_spells (code : String) {pieces : List Piece} [Spells code pieces]
    (h : (closedItems? pieces).any isStatement = true) : Idle code := by
  obtain ⟨items, hitems, hstatement⟩ := (Option.any_eq_true _ _).mp h
  obtain ⟨emitted, hlexed, hfilled⟩ := exists_lexed_of_spells code hitems
  simp only [isStatement, Bool.and_eq_true, beq_iff_eq] at hstatement
  obtain ⟨⟨hlast, hstart⟩, hnest, hbold⟩ := hstatement
  obtain ⟨init, rfl⟩ := List.getLast?_eq_some_iff.mp hlast
  rw [List.dropLast_concat] at hstart hnest hbold
  obtain ⟨toks, last, hsplit, hpart, rfl⟩ := hfilled.split
  obtain ⟨code', ends, rfl, htoks, hends⟩ := List.map_eq_append_iff.mp hsplit
  obtain ⟨semicolon, rfl, hsemicolon⟩ := List.map_eq_singleton_iff.mp hends
  subst htoks
  obtain ⟨first, rest, heq, hfirst⟩ := hpart.startsSimple hstart
  obtain ⟨lexeme, lexemes, rfl, rfl, rfl⟩ := List.map_eq_cons_iff.mp heq
  exact ⟨_, ⟨_, hlexed, forms_simple hfirst (hpart.nestAll hnest) hsemicolon⟩,
    Block.quiet_simple (hpart.not_isCall hbold)⟩

/-- Text that is read over, such as a comment. -/
theorem idle_of_no_items (code : String) {pieces : List Piece} [Spells code pieces]
    (h : closedItems? pieces = some []) : Idle code := by
  obtain ⟨emitted, hlexed, htokens⟩ := exists_lexed_of_spells code h
  obtain rfl := List.map_eq_nil_iff.mp htokens
  exact ⟨.done, ⟨[], hlexed, forms_nil⟩, Block.quiet_done⟩

/-! ### Loops and branches -/

/-- The head of a loop or a branch, the brace included. -/
def Opens (starts : Token → Bool) (text : String) : Prop :=
  ∃ first head brace, Lexed text.toList (first :: (head ++ [brace])) ∧ starts first.token = true ∧
    headNestAll [] (head.map Lexeme.token) = some [] ∧ brace.token = .brace

def isHead (starts : Token → Bool) : List Item → Bool
  | .fixed first :: rest =>
    starts first && rest.getLast? == some (.fixed .brace) &&
      rest.dropLast.foldlM Item.headNest [] == some []
  | _ => false

theorem opens_of_spells {starts : Token → Bool} (text : String) {pieces : List Piece}
    [Spells text pieces] (h : (closedItems? pieces).any (isHead starts) = true) :
    Opens starts text := by
  obtain ⟨items, hitems, hhead⟩ := (Option.any_eq_true _ _).mp h
  obtain ⟨emitted, hlexed, hfilled⟩ := exists_lexed_of_spells text hitems
  unfold isHead at hhead
  split at hhead
  · rename_i first rest
    simp only [Bool.and_eq_true, beq_iff_eq] at hhead
    obtain ⟨⟨hstarts, hlast⟩, hnest⟩ := hhead
    obtain ⟨part, more, hsplit, rfl, hmore⟩ := hfilled
    rw [List.singleton_append] at hsplit
    obtain ⟨lexeme, others, rfl, rfl, rfl⟩ := List.map_eq_cons_iff.mp hsplit
    obtain ⟨init, rfl⟩ := List.getLast?_eq_some_iff.mp hlast
    rw [List.dropLast_concat] at hnest
    obtain ⟨toks, last, hends, hpart, rfl⟩ := hmore.split
    obtain ⟨head, ends, rfl, htoks, hbraces⟩ := List.map_eq_append_iff.mp hends
    obtain ⟨brace, rfl, hbrace⟩ := List.map_eq_singleton_iff.mp hbraces
    exact ⟨lexeme, head, brace, hlexed, hstarts, htoks ▸ hpart.headNestAll hnest, hbrace⟩
  · simp at hhead

theorem exists_lexed_close :
    ∃ last : Lexeme, Lexed ['\x7d'] [last] ∧ last.token = .closing '\x7d' :=
  ⟨{ token := .closing '\x7d' }, by unfold Lexed; decide, rfl⟩

theorem exists_lexed_else :
    ∃ word : Lexeme, Lexed " else ".toList [word] ∧ word.token = .elseWord :=
  ⟨{ token := .elseWord }, by unfold Lexed; decide, rfl⟩

theorem toList_braces (head body : String) :
    (braces head body).toList = (head ++ " \x7b\n").toList ++ (body.toList ++ ['\x7d']) := by
  show (head ++ " \x7b\n" ++ body ++ "\x7d").toList = _
  simp

theorem written_loop {head body : String} {block : Block}
    (hhead : Opens Token.isLoopWord (head ++ " \x7b\n")) (hbody : Written body block) :
    Written (braces head body ++ "\n") (.loop block .done) := by
  obtain ⟨first, rest, brace, hlexed, hfirst, hnest, hbrace⟩ := hhead
  obtain ⟨emitted, hemitted, hforms⟩ := hbody
  obtain ⟨last, hclose, hlast⟩ := exists_lexed_close
  have hloop : Written (braces head body) (.loop block .done) := by
    refine ⟨_, ?_, forms_loop hfirst hnest hbrace hforms hlast⟩
    rw [toList_braces]
    simpa using hlexed.append (hemitted.append hclose)
  simpa using hloop.append written_newline

/-- Branches behind conditions. -/
def Arms (text : String) (arms : List Block) : Prop :=
  ∃ first rest, Lexed text.toList (first :: rest) ∧ first.token = .ifWord ∧ Branches rest arms

theorem arms_single {head body : String} {block : Block}
    (hhead : Opens (· == .ifWord) (head ++ " \x7b\n")) (hbody : Written body block) :
    Arms (braces head body) [block] := by
  obtain ⟨first, rest, brace, hlexed, hfirst, hnest, hbrace⟩ := hhead
  obtain ⟨emitted, hemitted, hforms⟩ := hbody
  obtain ⟨last, hclose, hlast⟩ := exists_lexed_close
  refine ⟨first, _, ?_, by simpa using hfirst, branches_single hnest hbrace hforms hlast⟩
  rw [toList_braces]
  simpa using hlexed.append (hemitted.append hclose)

theorem Arms.more {text more : String} {arms others : List Block}
    (h : Arms text arms) (hm : Arms more others) :
    Arms (text ++ " else " ++ more) (arms ++ others) := by
  obtain ⟨first, rest, hlexed, hfirst, hbranches⟩ := h
  obtain ⟨again, last, hmore, hagain, hothers⟩ := hm
  obtain ⟨word, helse, hword⟩ := exists_lexed_else
  refine ⟨first, _, ?_, hfirst, hbranches.more hothers hword hagain⟩
  rw [String.toList_append, String.toList_append]
  simpa using (hlexed.append helse).append hmore

theorem Arms.written {text : String} {arms : List Block} (h : Arms text arms) :
    Written (text ++ "\n") (.choices arms .done) := by
  obtain ⟨first, rest, hlexed, hfirst, hbranches⟩ := h
  have hwritten : Written text (.choices arms .done) := ⟨_, hlexed, hbranches.forms hfirst⟩
  simpa using hwritten.append written_newline

theorem Arms.written_else {text body : String} {arms : List Block}
    {block : Block} (h : Arms text arms) (hbody : Written body block) :
    Written (text ++ (" " ++ braces "else" body) ++ "\n") (.choices arms block) := by
  obtain ⟨first, rest, hlexed, hfirst, hbranches⟩ := h
  obtain ⟨emitted, hemitted, hforms⟩ := hbody
  obtain ⟨last, hclose, hlast⟩ := exists_lexed_close
  obtain ⟨word, helse, hword⟩ := exists_lexed_else
  have hopen : ∃ brace : Lexeme, Lexed "\x7b\n".toList [brace] ∧ brace.token = .brace :=
    ⟨{ token := .brace }, by unfold Lexed; decide, rfl⟩
  obtain ⟨brace, hlexedBrace, hbrace⟩ := hopen
  have hwritten : Written (text ++ (" " ++ braces "else" body)) (.choices arms block) := by
    refine ⟨_, ?_, hbranches.forms_else hfirst hword hbrace hforms hlast⟩
    have htext : (text ++ (" " ++ braces "else" body)).toList =
        text.toList ++ (" else ".toList ++ ("\x7b\n".toList ++ (body.toList ++ ['\x7d']))) := by
      rw [String.toList_append, String.toList_append, toList_braces]
      simp
    rw [htext]
    simpa using hlexed.append (helse.append (hlexedBrace.append (hemitted.append hclose)))
  simpa using hwritten.append written_newline

end BlockSynth.Zig
