import BlockSynth.Proofs.Zig.Injected

/-! # Emitters of loops, choices and jumps

A loop encloses its body between calls of its own: what would come after the loop and the trap at
the top, what would come before it at the end. A conditional makes the call before it in front of
the whole and the call after it at the top of every branch. A jump makes both of its calls, and then
the one that the end of the loop body would have made. In every case the slots are given as framed
text, and what is emitted is framed again.
-/
namespace BlockSynth.Zig

/-- Text of whole statements that is framed on every path. -/
def Frames (probes : Probes) (inner : Option String) (ids : List String) (text : String) : Prop :=
  ∃ block, Written text block ∧ Framed probes inner ids block

/-- The body of a loop, with quiet statements around its injected text. -/
def Encloses (probes : Probes) (id : String) (ids : List String) (text : String) : Prop :=
  ∃ lead block tail, Written text (loopBlock probes id lead block tail) ∧ lead.Quiet ∧ tail.Quiet ∧
    Framed probes (some id) ids block

/-- A loop statement, without the injected text around it. -/
def Loops (probes : Probes) (id : String) (ids : List String) : Emission → Prop
  | .statement code => ∃ setup lead block tail : Block,
    Written code (setup.append (.loop (loopBlock probes id lead block tail) .done)) ∧
      setup.Quiet ∧ lead.Quiet ∧ tail.Quiet ∧ Framed probes (some id) ids block
  | _ => False

/-- The terms of an emitter whose statement slots are known. -/
def nestedTerms (config : Config) (lines body : String → String → Prop)
    (loop : Option String → Prop) : Terms :=
  { (contract False (fun _ => True) config).toTerms with lines, body, loop }

variable {α : Type} {probes : Probes} {config : Config} {inner : Option String} {id : String}
    {ids : List String}
  {lines body : String → String → Prop} {loop : Option String → Prop}

theorem nestedTerms_serves :
    Serves False (fun _ => True) config (nestedTerms config lines body loop) where
  value _ _ h := h
  lines _ _ _ hfalse := hfalse.elim
  body _ _ _ hfalse := hfalse.elim
  word _ h := h
  fresh _ h := ⟨h, trivial⟩
  helper _ h := h
  require _ h := h

theorem Fulfils.nested {goal : α → Prop} {script : Script α}
    (h : Fulfils False (fun _ => True) config goal script) :
    script.Meets (nestedTerms config lines body loop) goal :=
  h _ nestedTerms_serves

/-! ### Bodies of loops -/

theorem Probed.encloses_trapLoop (h : Probed probes config)
    {code : String} (hcode : Frames probes (some id) ids code) :
    Encloses probes id ids
      (config.trapLoop quotes (Text.prefixLines config.indentUnit code) id) := by
  obtain ⟨block, hwritten, hframed⟩ := hcode
  refine ⟨.done, block, .done, ?_, Block.quiet_done, Block.quiet_done, hframed⟩
  have htop := ((h.written_after id).indent h.indent).append ((h.written_trap id).indent h.indent)
  have hwhole :=
    (htop.append (hwritten.indent h.indent)).append ((h.written_before id).indent h.indent)
  rw [Block.append_assoc, Block.append_assoc] at hwhole
  simpa [Config.trapLoop, loopBlock, Block.append] using hwhole

theorem Encloses.lead {lead text : String} (h : Encloses probes id ids text) (hlead : Idle lead) :
    Encloses probes id ids (lead ++ text) := by
  obtain ⟨top, block, tail, hwritten, htop, htail, hframed⟩ := h
  obtain ⟨first, hfirst, hquiet⟩ := hlead
  refine ⟨first.append top, block, tail, ?_, hquiet.append htop, htail, hframed⟩
  rw [loopBlock, Block.append_assoc]
  exact hfirst.append hwritten

theorem Encloses.tail {text tail : String} (h : Encloses probes id ids text) (htail : Idle tail) :
    Encloses probes id ids (text ++ tail) := by
  obtain ⟨lead, block, ending, hwritten, hlead, hending, hframed⟩ := h
  obtain ⟨last, hlast, hquiet⟩ := htail
  refine ⟨lead, block, ending.append last, ?_, hlead, hending.append hquiet, hframed⟩
  simpa [loopBlock, Block.append_assoc] using hwritten.append hlast

theorem loops_braces {setup head code : String} (hsetup : Idle setup)
    (hhead : Opens Token.isLoopWord (head ++ " \x7b\n")) (hcode : Encloses probes id ids code) :
    Loops probes id ids (.statement (setup ++ braces head code ++ "\n")) := by
  obtain ⟨first, hfirst, hquiet⟩ := hsetup
  obtain ⟨lead, block, tail, hwritten, hlead, htail, hframed⟩ := hcode
  refine ⟨first, lead, block, tail, ?_, hquiet, hlead, htail, hframed⟩
  rw [String.append_assoc]
  exact hfirst.append (written_loop hhead hwritten)

/-! ### Loops -/

theorem loops_repeatLoop (hbody : ∀ code, body "DO" code → Encloses probes id ids code)
    (node : Node) :
    (repeatLoop config node).Meets (nestedTerms config lines body loop) (Loops probes id ids) := by
  refine (fulfils_repeatTimes node).nested.bind fun times htimes => ?_
  refine (Script.meets_askLoopBody "DO").bind fun code hcode => ?_
  refine (fulfils_freshName "count").nested.bind fun counter hcounter => ?_
  refine (cumulative_idle.cacheBound times "repeat_end").nested.bind fun bound hbound =>
    Script.Meets.pure ?_
  obtain ⟨hexpr, hsetup⟩ := hbound
  have hword := hcounter.1.spells
  have hdeclare : Idle s!"var {counter}: f32 = 0;\n" := idle_of_spells _ (by decide)
  exact loops_braces (hsetup.append hdeclare) (opens_of_spells _ (by decide)) (hbody code hcode)

theorem loops_whileLoop (hbody : ∀ code, body "DO" code → Encloses probes id ids code)
    (node : Node) :
    (whileLoop config node).Meets (nestedTerms config lines body loop) (Loops probes id ids) := by
  refine (fulfils_choose node "MODE" _).nested.bind fun negated _ => ?_
  refine (fulfils_valueOr "BOOL" _ atom_false).nested.bind fun condition hcondition => ?_
  refine (Script.meets_askLoopBody "DO").bind fun code hcode => Script.Meets.pure ?_
  have hhead : Opens Token.isLoopWord
      ("while (" ++ (if negated then "!" ++ condition else condition) ++ ")" ++ " \x7b\n") := by
    cases negated with
    | false =>
      have hloose : Spells condition [.operand .none] := hcondition
      exact opens_of_spells ("while (" ++ condition ++ ")" ++ " \x7b\n") (by decide)
    | true =>
      have htight : Spells condition [.operand .unaryPrefix] := hcondition
      exact opens_of_spells ("while (" ++ ("!" ++ condition) ++ ")" ++ " \x7b\n") (by decide)
  have hloops := loops_braces idle_empty hhead (hbody code hcode)
  rw [String.empty_append] at hloops
  exact hloops

theorem loops_literalCount (name start finish : String) (first last step : Binary64) {code : String}
    [Spells name [.operand .atomic]] [Spells start [.operand .assignment]]
    [Spells finish [.operand .assignment]] (hcode : Encloses probes id ids code) :
    Loops probes id ids (.statement (literalCount name start finish first last step code)) := by
  have hincrement : Spells step.abs.codeText [.operand .atomic] :=
    spells_iff.mpr (atom_codeText_abs step)
  have hassign : Idle s!"{name} = {start};\n" := idle_of_spells _ (by decide)
  unfold literalCount
  cases first.le last with
  | false =>
    simp only [Bool.false_eq_true, if_false]
    exact loops_braces hassign (opens_of_spells _ (by decide)) hcode
  | true =>
    simp only [if_true]
    exact loops_braces hassign (opens_of_spells _ (by decide)) hcode

/-- The statement that turns the direction of a counting loop. -/
theorem idle_turn (h : Probed probes config) (increment : String)
    (start finish : String) [Spells increment [.operand .atomic]]
    [Spells start [.operand .assignment]] [Spells finish [.operand .assignment]] :
    Idle (braces s!"if ({start} > {finish})"
      s!"{config.indentUnit}{increment} = -{increment};\n" ++ "\n") := by
  have hindent := h.fair.spells_indent
  obtain ⟨block, hwritten, hquiet⟩ : Idle s!"{config.indentUnit}{increment} = -{increment};\n" :=
    idle_of_spells _ (by decide)
  have hhead : Opens (· == .ifWord) (s!"if ({start} > {finish})" ++ " \x7b\n") :=
    opens_of_spells _ (by decide)
  exact ⟨_, (arms_single hhead hwritten).written, hquiet.choice⟩

theorem loops_computedCount (h : Probed probes config) (name increment : String)
    (start finish : Cached) (step : String) {code : String}
    [Spells name [.operand .atomic]] [Spells increment [.operand .atomic]]
    [Spells start.expr [.operand .assignment]] (hstart : Idle start.setup)
    [Spells finish.expr [.operand .assignment]] (hfinish : Idle finish.setup)
    [Spells step [.operand .assignment]] (hcode : Encloses probes id ids code) :
    Loops probes id ids
      (.statement (computedCount config name increment start finish step code)) := by
  have hsize := spells_stepSize step
  unfold computedCount
  refine loops_braces ?_ (opens_of_spells _ (by decide)) hcode
  refine Idle.append ?_ (idle_of_spells _ (by decide))
  rw [String.append_assoc]
  refine Idle.append ?_ (idle_turn h increment start.expr finish.expr)
  exact (hstart.append hfinish).append (idle_of_spells _ (by decide))

theorem loops_countLoop (h : Probed probes config)
    (hbody : ∀ code, body "DO" code → Encloses probes id ids code) (node : Node) :
    (countLoop config node).Meets (nestedTerms config lines body loop) (Loops probes id ids) := by
  refine (fulfils_variableOf node).nested.bind fun name hname => ?_
  refine (fulfils_valueOr "FROM" .assignment atom_zero).nested.bind fun start hstart => ?_
  refine (fulfils_valueOr "TO" .assignment atom_zero).nested.bind fun finish hfinish => ?_
  refine (fulfils_valueOr "BY" .assignment atom_one).nested.bind fun step hstep => ?_
  refine (Script.meets_askLoopBody "DO").bind fun code hcode => ?_
  split
  · exact Script.Meets.pure (loops_literalCount name start finish _ _ _ (hbody code hcode))
  · refine (cumulative_idle.cacheBound start (name ++ "_start")).nested.bind
      fun start' hstart' => ?_
    refine (cumulative_idle.cacheBound finish (name ++ "_end")).nested.bind
      fun finish' hfinish' => ?_
    refine (fulfils_freshName (name ++ "_inc")).nested.bind fun increment hincrement => ?_
    obtain ⟨hfrom, hfromSetup⟩ := hstart'
    obtain ⟨hto, htoSetup⟩ := hfinish'
    have hword := hincrement.1.spells
    exact Script.Meets.pure
      (loops_computedCount h name increment start' finish' step hfromSetup htoSetup
      (hbody code hcode))

/-- The head of a loop over items, with the name of the current one. -/
theorem opens_each (items : String) {capture : String}
    [Spells items [.operand .unaryPrefix]] (hcapture : IsName capture) :
    Opens Token.isLoopWord (s!"for ({items}) |{capture}|" ++ " \x7b\n") := by
  have hplain := hcapture.isPlain
  obtain ⟨emitted, hlexed, part, more, htokens, rfl, hfilled⟩ :=
    exists_lexed_of_spells s!"for ({items}) |" (show closedItems? _ =
      some [.fixed (.word ['f', 'o', 'r']), .fixed (.opening '('), .operand .unaryPrefix,
      .fixed (.closing ')'), .fixed (.symbol ['|'])] by decide)
  obtain ⟨first, rest, rfl, hfirst, rfl⟩ := List.map_eq_cons_iff.mp htokens
  have hends : Lexed ['|', ' ', '\x7b', '\n']
      [{ token := .symbol ['|'] }, { token := .brace }] := by
    unfold Lexed
    decide
  have htext : (s!"for ({items}) |{capture}|" ++ " \x7b\n").toList =
      (s!"for ({items}) |").toList ++ (capture.toList ++ ['|', ' ', '\x7b', '\n']) := by
    simp [toString]
  refine ⟨first, rest ++ [{ token := .word capture.toList }, { token := .symbol ['|'] }],
    { token := .brace }, ?_, ?_, ?_, rfl⟩
  · rw [htext]
    simpa using hlexed.append (Lexed.word hplain.ne_nil hplain.isWordChar (by decide) hends)
  · rw [hfirst]
    decide
  · rw [List.map_append, headNestAll_append,
      hfilled.headNestAll (by decide : _ = some []), Option.bind_some]
    simp [headNestAll_cons, headNest, nest, Token.isTame, Token.brace,
      Token.isTame_word.mp hplain.isTame]

theorem loops_eachLoop (h : Probed probes config)
    (hbody : ∀ code, body "DO" code → Encloses probes id ids code) (node : Node) :
    (eachLoop config node).Meets (nestedTerms config lines body loop) (Loops probes id ids) := by
  refine (fulfils_variableOf node).nested.bind fun name hname => ?_
  refine (fulfils_itemsOr "LIST").nested.bind fun items hitems => ?_
  refine (Script.meets_askLoopBody "DO").bind fun code hcode => ?_
  refine (Script.meets_freshName (name ++ "_item")).bind fun capture hcapture =>
    Script.Meets.pure ?_
  have hindent := h.fair.spells_indent
  have hword := IsName.spells hcapture
  have htake : Idle s!"{config.indentUnit}{name} = {capture};\n" := idle_of_spells _ (by decide)
  simpa using loops_braces idle_empty (opens_each items hcapture) ((hbody code hcode).lead htake)

theorem loops_every (h : Probed probes config)
    (hbody : ∀ code, body "STMTS" code → Encloses probes id ids code) (node : Node) :
    (every config node).Meets (nestedTerms config lines body loop) (Loops probes id ids) := by
  refine (Script.meets_askLoopBody "STMTS").bind fun code hcode => Script.Meets.pure ?_
  generalize (node.fieldNumber "DURATION").getD _ = duration
  have hindent := h.fair.spells_indent
  have hremarks : Idle s!"\n// Every {duration.codeText} seconds...\n" ∧
      Idle s!"{config.indentUnit}// Wait {duration.codeText} seconds\n" := by
    have hinner : Spells duration.codeText [.inner] := spells_iff.mpr (isInner_codeText duration)
    exact ⟨idle_of_no_items _ (by decide), idle_of_no_items _ (by decide)⟩
  have hsleep : Idle s!"{config.indentUnit}_ = c.sleep({duration.codeText});\n" := by
    have hseconds : Spells duration.codeText [.operand .unaryPrefix] :=
      spells_iff.mpr (operand_codeText duration)
    exact idle_of_spells _ (by decide)
  exact loops_braces hremarks.1 (opens_of_spells _ (by decide))
    ((hbody code hcode).tail (hremarks.2.append hsleep))

/-! ### Choices and jumps -/

/-- A statement that places its injected text itself. -/
def Framing (probes : Probes) (inner : Option String) (ids : List String) : Emission → Prop
  | .statement code => Frames probes inner ids code
  | _ => False

/-- The statement slots of a conditional. -/
def branchSlots (node : Node) : List String :=
  (List.range (node.mutation.elseIf + 1)).map (fun n => s!"DO{n}") ++ ["ELSE"]

/-- A branch makes the call that belongs after the conditional, and then those of its statements. -/
theorem Probed.begun_branch (h : Probed probes config)
    {code : String} (hcode : Frames probes inner ids code) :
    ∃ block, Written (Text.prefixLines config.indentUnit (config.after quotes id) ++ code) block ∧
      Begun probes inner id ids block := by
  obtain ⟨block, hwritten, hframed⟩ := hcode
  exact ⟨_, ((h.written_after id).indent h.indent).append hwritten, Zig.begun_branch h.apt hframed⟩

theorem begun_conditionalArms (h : Probed probes config)
    {arms : String → List String} {numbers : List Nat}
    (hlines : ∀ n ∈ numbers, ∀ code,
      lines s!"DO{n}" code → Frames probes inner (arms s!"DO{n}") code) :
    (conditionalArms (Text.prefixLines config.indentUnit (config.after quotes id)) numbers).Meets
      (nestedTerms config lines body loop)
      (List.Forall₂ (fun n text => ∃ block,
        Arms text [block] ∧ Begun probes inner id (arms s!"DO{n}") block)
        numbers) := by
  induction numbers with
  | nil => exact .nil
  | cons n rest ih =>
    rw [List.forall_mem_cons] at hlines
    refine (fulfils_valueOr s!"IF{n}" .none atom_false).nested.bind fun condition hcondition => ?_
    refine (Script.meets_askStatements s!"DO{n}").bind fun code hcode => ?_
    refine (ih hlines.2).bind fun texts htexts => Script.Meets.pure (.cons ?_ htexts)
    obtain ⟨block, hwritten, hbegun⟩ := h.begun_branch (hlines.1 code hcode)
    have hhead : Opens (· == .ifWord) (s!"if ({condition})" ++ " \x7b\n") :=
      opens_of_spells _ (by decide)
    exact ⟨block, arms_single hhead hwritten, hbegun⟩

/-- Branches one after the other, with the loops in them. -/
theorem exists_arms_join {slots : List String} {texts : List String} {arms : String → List String}
    (hne : slots ≠ []) (h : List.Forall₂ (fun slot text => ∃ block, Arms text [block] ∧
      Begun probes inner id (arms slot) block) slots texts) :
    ∃ blocks : List (List String × Block), blocks.map Prod.fst = slots.map arms ∧
      (∀ arm ∈ blocks, Begun probes inner id arm.1 arm.2) ∧
        Arms (Text.join " else " texts) (blocks.map Prod.snd) := by
  induction h with
  | nil => exact absurd rfl hne
  | @cons slot text slots texts hfirst hrest ih =>
    obtain ⟨block, harm, hbegun⟩ := hfirst
    cases hrest with
    | nil => exact ⟨[(arms slot, block)], rfl, List.forall_mem_singleton.mpr hbegun, harm⟩
    | cons hnext hmore =>
      obtain ⟨blocks, hids, hblocks, harms⟩ := ih (by simp)
      exact ⟨(arms slot, block) :: blocks, by rw [List.map_cons, List.map_cons, hids],
        List.forall_mem_cons.mpr ⟨hbegun, hblocks⟩, harm.more harms⟩

theorem framing_conditional (h : Probed probes config) {arms : String → List String} {node : Node}
    (hlines : ∀ slot ∈ branchSlots node, ∀ code,
      lines slot code → Frames probes inner (arms slot) code) :
    (conditional config node).Meets (nestedTerms config lines body loop)
      (Framing probes inner ((branchSlots node).flatMap arms)) := by
  rw [branchSlots, List.forall_mem_append, List.forall_mem_singleton, List.forall_mem_map] at hlines
  refine (begun_conditionalArms h hlines.1).bind fun texts htexts => ?_
  rw [if_pos (by simp [h.after_ne_empty])]
  refine (Script.meets_askStatements "ELSE").bind fun code hcode => Script.Meets.pure ?_
  obtain ⟨blocks, hids, hblocks, harms⟩ :=
    exists_arms_join (by simp) (List.forall₂_map_left_iff.mpr htexts)
  obtain ⟨last, hlast, hbegun⟩ := h.begun_branch (hlines.2 code hcode)
  have hall : (branchSlots node).flatMap arms = blocks.flatMap Prod.fst ++ arms "ELSE" := by
    rw [branchSlots, List.flatMap_append, List.flatMap_singleton, List.flatMap_def,
      List.flatMap_def, hids]
  have hwhole := (h.written_before node.id).append (harms.written_else hlast)
  refine ⟨_, ?_, hall ▸ (begun_choices hblocks hbegun).framed⟩
  simpa [String.append_assoc] using hwhole

theorem written_jump {name keyword : String} (h : jump? name = some keyword) :
    ∃ kind, Written keyword (.jump kind .done) := by
  have hlexed : Lexed "break;\n".toList
      [{ token := .word ['b', 'r', 'e', 'a', 'k'] }, { token := .semicolon }] ∧
      Lexed "continue;\n".toList
        [{ token := .word ['c', 'o', 'n', 't', 'i', 'n', 'u', 'e'] }, { token := .semicolon }] := by
    unfold Lexed
    decide
  unfold jump? at h
  split at h
  · obtain rfl := Option.some.inj h
    exact ⟨.leave, _, hlexed.1, forms_jump rfl rfl⟩
  · obtain rfl := Option.some.inj h
    exact ⟨.resume, _, hlexed.2, forms_jump rfl rfl⟩
  · simp at h

theorem framing_jump (h : Probed probes config) {outer : String}
    (hloop : ∀ id, loop id → id = some outer) (node : Node) :
    (jump config node).Meets (nestedTerms config lines body loop)
      (Framing probes (some outer) []) := by
  refine (fulfils_option node "FLOW").nested.bind fun name _ => ?_
  refine (fulfils_choose node "FLOW" (jump? name)).nested.bind fun keyword hkeyword => ?_
  refine Script.meets_askLoop.bind fun around haround => Script.Meets.pure ?_
  obtain rfl := hloop around haround
  obtain ⟨kind, hwritten⟩ := written_jump hkeyword
  have hwhole := (((h.written_before node.id).append (h.written_after node.id)).append
    (h.written_before outer)).append hwritten
  rw [Block.append_assoc, Block.append_assoc] at hwhole
  exact ⟨_, hwhole, (begun_jump h.apt outer kind).framed⟩

end BlockSynth.Zig
