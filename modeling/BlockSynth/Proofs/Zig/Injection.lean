import BlockSynth.Proofs.Zig.Enclosed
import BlockSynth.Proofs.Zig.Sound.Catalog

/-! # Injection around every execution

A chain of statements is built from plain statements, loops, conditionals, and jumps inside loops,
to any depth. Where the templates of the configuration call one word each, every path through its
code calls the words before and after statements in pairs with equal ids, and calls the trap of a
loop once whenever it enters the body.

Rendering a slot leaves all loops that it enters, so that the innermost loop of the session is the
loop whose body a jump stands in. This is what the induction on the chain carries along.
-/
namespace BlockSynth.Zig

/-! ### Chains -/

/-- The kinds of statements around which text is injected automatically, without the loops. -/
def plainKinds : List String :=
  ["variables_set", "variables_set_dynamic", "math_change", "text_append", "text_print",
    "lists_getIndex", "lists_setIndex", "procedures_callnoreturn", "transmit_msg"]

/-- The kinds of loops, with the slots of their bodies. -/
def loopSlots : List (String × String) :=
  [("controls_repeat", "DO"), ("controls_repeat_ext", "DO"), ("controls_whileUntil", "DO"),
    ("controls_for", "DO"), ("controls_forEach", "DO"), ("every", "STMTS")]

def choiceKinds : List String :=
  ["controls_if", "controls_ifelse"]

/-- A chain of statements inside the given loop, and the ids of its loops in the order
in which they begin. -/
inductive Built : Option String → Option Node → List String → Prop
  | done {inner : Option String} : Built inner none []
  | disabled {inner : Option String} {node : Node} {rest : List String} :
    node.disabled = true → Built inner node.next rest → Built inner (some node) rest
  | plain {inner : Option String} {node : Node} {rest : List String} :
    node.disabled = false → node.kind ∈ plainKinds → Built inner node.next rest →
    Built inner (some node) rest
  | loop {inner : Option String} {node : Node} {slot : String} {inside rest : List String} :
    node.disabled = false → (node.kind, slot) ∈ loopSlots →
    Built (some node.id) (node.statement slot) inside →
      Built inner node.next rest → Built inner (some node) (node.id :: inside ++ rest)
  | choice {inner : Option String} {node : Node}
    {arms : String → List String} {rest : List String} :
    node.disabled = false → node.kind ∈ choiceKinds →
      (∀ slot ∈ branchSlots node, Built inner (node.statement slot) (arms slot)) →
      Built inner node.next rest → Built inner (some node) ((branchSlots node).flatMap arms ++ rest)
  | jump {outer : String} {node : Node} {rest : List String} :
    node.disabled = false → node.kind = "controls_flow_statements" →
    Built (some outer) node.next rest →
      Built (some outer) (some node) rest

/-! ### Kinds -/

theorem exists_plain_emitter {kind : String} (h : kind ∈ plainKinds) :
    ∃ emitter, catalog.find? kind = some emitter ∧ emitter.selfInjecting = false ∧
      ∀ {config}, Fair False config → ∀ node,
        Fulfils False (fun _ => True) config (Sound Idle) (emitter.script config node) := by
  have hset : catalog.find? "variables_set" = some ⟨setVariable, false⟩ :=
    (find?_catalog (by decide)).trans rfl
  simp only [plainKinds, List.mem_cons, List.not_mem_nil, or_false] at h
  rcases h with rfl | rfl | rfl | rfl | rfl | rfl | rfl | rfl | rfl
  · exact ⟨_, hset, rfl, fun _ => cumulative_idle.setVariable⟩
  · exact ⟨_, find?_catalog_alias (by decide) (by decide) hset, rfl, fun _ =>
      cumulative_idle.setVariable⟩
  · exact ⟨⟨changeVariable, false⟩, (find?_catalog (by decide)).trans rfl, rfl, fun _ =>
      cumulative_idle.changeVariable⟩
  · exact ⟨⟨appendText, false⟩, (find?_catalog (by decide)).trans rfl, rfl, fun _ =>
      cumulative_idle.appendText⟩
  · exact ⟨⟨print, false⟩, (find?_catalog (by decide)).trans rfl, rfl, fun _ =>
      cumulative_idle.print⟩
  · exact ⟨⟨getItem, false⟩, (find?_catalog (by decide)).trans rfl, rfl, fun h =>
      cumulative_idle.getItem h⟩
  · exact ⟨⟨setItem, false⟩, (find?_catalog (by decide)).trans rfl, rfl, fun _ =>
      cumulative_idle.setItem⟩
  · exact ⟨⟨callForEffect, false⟩, (find?_catalog (by decide)).trans rfl, rfl, fun _ =>
      cumulative_idle.callForEffect⟩
  · exact ⟨⟨transmit, false⟩, (find?_catalog (by decide)).trans rfl, rfl, fun _ =>
      cumulative_idle.transmit⟩

theorem exists_loop_emitter {kind slot : String} (h : (kind, slot) ∈ loopSlots) :
    ∃ emitter, catalog.find? kind = some emitter ∧ emitter.selfInjecting = false ∧
      ∀ {probes config}, Probed probes config → ∀ {lines body loop id ids},
        (∀ code, body slot code → Encloses probes id ids code) → ∀ node,
          (emitter.script config node).Meets (nestedTerms config lines body loop)
            (Loops probes id ids) := by
  have hrepeat : catalog.find? "controls_repeat_ext" = some ⟨repeatLoop, false⟩ :=
    (find?_catalog (by decide)).trans rfl
  simp only [loopSlots, List.mem_cons, List.not_mem_nil, or_false, Prod.mk.injEq] at h
  rcases h with ⟨rfl, rfl⟩ | ⟨rfl, rfl⟩ | ⟨rfl, rfl⟩ | ⟨rfl, rfl⟩ | ⟨rfl, rfl⟩ | ⟨rfl, rfl⟩
  · exact ⟨_, find?_catalog_alias (by decide) (by decide) hrepeat, rfl, fun _ => loops_repeatLoop⟩
  · exact ⟨_, hrepeat, rfl, fun _ => loops_repeatLoop⟩
  · exact ⟨⟨whileLoop, false⟩, (find?_catalog (by decide)).trans rfl, rfl, fun _ => loops_whileLoop⟩
  · exact ⟨⟨countLoop, false⟩, (find?_catalog (by decide)).trans rfl, rfl, fun h =>
      loops_countLoop h⟩
  · exact ⟨⟨eachLoop, false⟩, (find?_catalog (by decide)).trans rfl, rfl, fun h => loops_eachLoop h⟩
  · exact ⟨⟨every, false⟩, (find?_catalog (by decide)).trans rfl, rfl, fun h => loops_every h⟩

theorem find?_choice {kind : String} (h : kind ∈ choiceKinds) :
    catalog.find? kind = some ⟨conditional, true⟩ := by
  have hif : catalog.find? "controls_if" = some ⟨conditional, true⟩ :=
    (find?_catalog (by decide)).trans rfl
  simp only [choiceKinds, List.mem_cons, List.not_mem_nil, or_false] at h
  rcases h with rfl | rfl
  · exact hif
  · exact find?_catalog_alias (by decide) (by decide) hif

theorem find?_jump : catalog.find? "controls_flow_statements" = some ⟨jump, true⟩ :=
  (find?_catalog (by decide)).trans rfl

/-! ### Statements in a chain -/

variable {probes : Probes} {config : Config} {inner : Option String}
    {ids rest : List String} {node : Node}
  {emitter : Emitter}

theorem asStatement_of_find? (hfind : catalog.find? node.kind = some emitter) (code : String) :
    (Emission.statement code).asStatement (setting config) node = .ok (node.comments commentMark ++
      if emitter.selfInjecting then code
        else config.before quotes node.id ++ code ++ config.after quotes node.id) := by
  rw [← catalog_setting config] at hfind
  simp only [Emission.asStatement, hfind, Option.any_some]
  rfl

/-- A statement around which text is injected. -/
theorem Probed.frames_around (h : Probed probes config)
    (hfind : catalog.find? node.kind = some emitter) (hauto : emitter.selfInjecting = false)
    {code text : String} {block : Block} (hwritten : Written code block)
    (hbegun : Begun probes inner node.id ids (block.append (probe probes.after node.id)))
    (htext : (Emission.statement code).asStatement (setting config) node = .ok text) :
    Frames probes inner ids text := by
  rw [asStatement_of_find? hfind, hauto, if_neg Bool.false_ne_true] at htext
  obtain rfl := Except.ok.inj htext
  have haround := ((h.written_before node.id).append hwritten).append (h.written_after node.id)
  rw [Block.append_assoc] at haround
  exact ⟨_, (written_comments node).append haround, hbegun.framed⟩

/-- A statement that has placed its injected text itself. -/
theorem frames_alone (hfind : catalog.find? node.kind = some emitter)
    (hself : emitter.selfInjecting = true)
    {code text : String} (hcode : Frames probes inner ids code)
    (htext : (Emission.statement code).asStatement (setting config) node = .ok text) :
    Frames probes inner ids text := by
  rw [asStatement_of_find? hfind, hself, if_pos rfl] at htext
  obtain rfl := Except.ok.inj htext
  obtain ⟨block, hwritten, hframed⟩ := hcode
  exact ⟨_, (written_comments node).append hwritten, hframed⟩

theorem Frames.append {text more : String}
    (h : Frames probes inner ids text) (hm : Frames probes inner rest more) :
    Frames probes inner (ids ++ rest) (text ++ more) := by
  obtain ⟨block, hwritten, hframed⟩ := h
  obtain ⟨next, hmore, hnext⟩ := hm
  exact ⟨_, hwritten.append hmore, hframed.append hnext⟩

theorem Frames.indent {text : String} (hindent : IsIndent config.indentUnit.toList)
    (h : Frames probes inner ids text) :
    Frames probes inner ids (Text.prefixLines config.indentUnit text) := by
  obtain ⟨block, hwritten, hframed⟩ := h
  exact ⟨block, hwritten.indent hindent, hframed⟩

theorem frames_empty : Frames probes inner [] "" :=
  ⟨.done, written_empty, framed_done⟩

/-! ### Rendering -/

variable {inv : Session → Prop} {stack : List String}

theorem keeps_disabled (hdisabled : node.disabled = true)
    (hrest : Synth.Keeps inv (Frames probes inner rest) (chainOffer (setting config) node.next)) :
    Synth.Keeps inv (Frames probes inner rest) (chainOffer (setting config) (some node)) := by
  rw [chainOffer_some, if_pos hdisabled]
  refine (Synth.Keeps.pure (@frames_empty probes inner)).bind fun here hhere => ?_
  exact hrest.bind fun more hmore => Synth.Keeps.pure (hhere.append hmore)

theorem keeps_enabled (henabled : node.disabled = false) {emitted : Emission → Prop}
    (hemission : Synth.Keeps inv emitted (node.offer (setting config)).emission)
    (hhere : ∀ emission text, emitted emission →
      emission.asStatement (setting config) node = .ok text → Frames probes inner ids text)
    (hrest : Synth.Keeps inv (Frames probes inner rest) (chainOffer (setting config) node.next)) :
    Synth.Keeps inv (Frames probes inner (ids ++ rest))
      (chainOffer (setting config) (some node)) := by
  rw [chainOffer_some, henabled, if_neg Bool.false_ne_true]
  refine hemission.bind fun emission hemitted => ?_
  refine (Synth.Keeps.ofExcept fun text htext => hhere emission text hemitted htext).bind
    fun here hframes => ?_
  exact hrest.bind fun more hmore => Synth.Keeps.pure (hframes.append hmore)

/-- A script whose slots are known is run as its terms say. -/
theorem Probed.keeps_emission (h : Probed probes config)
    (hfind : catalog.find? node.kind = some emitter) {lines body : String → String → Prop}
    {loop : Option String → Prop} {goal : Emission → Prop}
    (hscript : (emitter.script config node).Meets (nestedTerms config lines body loop) goal)
    (hlines : ∀ slot, Synth.Keeps (Synth.Inside (Orderly False fun _ => True) stack)
      (fun code => lines slot (Text.prefixLines config.indentUnit code))
      (chainOffer (setting config) (node.statement slot)))
    (hbody : ∀ slot, Synth.Keeps (Synth.Inside (Orderly False fun _ => True) (node.id :: stack))
      (fun code =>
        body slot (config.trapLoop quotes (Text.prefixLines config.indentUnit code) node.id))
      (chainOffer (setting config) (node.statement slot)))
    (hloop : loop stack.head?) :
    Synth.Keeps (Synth.Inside (Orderly False fun _ => True) stack) goal
      (node.offer (setting config)).emission := by
  have hupheld := contract_upheld h.fair
  have hkept := (hupheld.toKept.inside stack).with_slots lines body loop
  rw [emission_of_kind rfl hfind]
  refine @Terms.Kept.run _ (setting config) _ hkept _ _ _ _ _ (fun slot rank => ?_) (fun slot => ?_)
    (fun slot => ?_) (fun session hsession => ?_) _ hscript
  · exact (Contract.Upheld.value_slot (hupheld.slotOffers_hold node.inputs) slot rank).inside stack
  · rw [atSlot_chain]
    exact hlines slot
  · rw [atSlot_chain]
    exact Synth.Keeps.inLoop hupheld.loops (hbody slot)
  · rw [hsession.2]
    exact hloop

theorem Probed.keeps_any (h : Probed probes config) (first : Option Node) :
    Synth.Keeps (Synth.Inside (Orderly False fun _ => True) stack) (fun _ => True)
      (chainOffer (setting config) first) :=
  (((contract_upheld h.fair).chainOffer_keeps first).mono fun _ _ => trivial).inside stack

/-- A slot that is of interest in some cases only. -/
theorem Probed.keeps_slot (h : Probed probes config)
    {first : Option Node} {relevant : Prop} {answer : String → Prop}
    (hanswer : relevant → Synth.Keeps (Synth.Inside (Orderly False fun _ => True) stack)
      answer (chainOffer (setting config) first)) :
    Synth.Keeps (Synth.Inside (Orderly False fun _ => True) stack) (fun code =>
      relevant → answer code)
      (chainOffer (setting config) first) := by
  by_cases hrelevant : relevant
  · exact (hanswer hrelevant).mono fun _ hcode _ => hcode
  · exact (h.keeps_any first).mono fun _ _ hholds => absurd hholds hrelevant

theorem Probed.keeps_plain (h : Probed probes config)
    (henabled : node.disabled = false) (hkind : node.kind ∈ plainKinds)
    (hrest : Synth.Keeps (Synth.Inside (Orderly False fun _ => True) stack)
      (Frames probes inner rest) (chainOffer (setting config) node.next)) :
    Synth.Keeps (Synth.Inside (Orderly False fun _ => True) stack) (Frames probes inner rest)
      (chainOffer (setting config) (some node)) := by
  obtain ⟨emitter, hfind, hauto, hscript⟩ := exists_plain_emitter hkind
  have hemission : Synth.Keeps (Synth.Inside (Orderly False fun _ => True) stack) (Sound Idle)
      (node.offer (setting config)).emission := by
    rw [emission_of_kind rfl hfind]
    exact ((contract_upheld h.fair).ask node (hscript h.fair node).meets).inside stack
  refine @keeps_enabled _ _ _ [] _ _ _ henabled _ hemission
    (fun emission text hrests htext => ?_) hrest
  cases emission with
  | value code rank => simp [Emission.asStatement] at htext
  | nothing =>
    obtain rfl := Except.ok.inj htext
    exact frames_empty
  | statement code =>
    obtain ⟨block, hwritten, hquiet⟩ := hrests
    exact h.frames_around hfind hauto hwritten (begun_plain h.apt hquiet) htext

theorem Probed.keeps_loop (h : Probed probes config) {slot : String} {inside : List String}
    (henabled : node.disabled = false) (hkind : (node.kind, slot) ∈ loopSlots)
    (hbody : Synth.Keeps (Synth.Inside (Orderly False fun _ => True) (node.id :: stack))
      (Frames probes (some node.id) inside) (chainOffer (setting config) (node.statement slot)))
    (hrest : Synth.Keeps (Synth.Inside (Orderly False fun _ => True) stack)
      (Frames probes inner rest) (chainOffer (setting config) node.next)) :
    Synth.Keeps (Synth.Inside (Orderly False fun _ => True) stack)
      (Frames probes inner (node.id :: inside ++ rest))
      (chainOffer (setting config) (some node)) := by
  obtain ⟨emitter, hfind, hauto, hscript⟩ := exists_loop_emitter hkind
  have hslot : ∀ other, Synth.Keeps (Synth.Inside (Orderly False fun _ => True) (node.id :: stack))
      (fun code => other = slot → Encloses probes node.id inside
        (config.trapLoop quotes (Text.prefixLines config.indentUnit code) node.id))
      (chainOffer (setting config) (node.statement other)) := by
    refine fun other => h.keeps_slot fun hother => ?_
    rw [hother]
    exact hbody.mono fun _ => h.encloses_trapLoop
  have hmeets := @hscript _ _ h (fun _ _ => True)
    (fun other code => other = slot → Encloses probes node.id inside code)
    (fun _ => True) _ _ (fun _ hcode => hcode rfl) node
  have hemission :=
    h.keeps_emission hfind hmeets (fun other => h.keeps_any (node.statement other)) hslot trivial
  refine keeps_enabled henabled hemission (fun emission text hloops htext => ?_) hrest
  cases emission with
  | statement code =>
    obtain ⟨setup, lead, block, tail, hwritten, hsetup, hlead, htail, hframed⟩ := hloops
    exact h.frames_around hfind hauto hwritten (begun_loop h.apt hsetup hlead htail hframed) htext
  | value code rank => exact hloops.elim
  | nothing => exact hloops.elim

theorem frames_of_framing (hfind : catalog.find? node.kind = some emitter)
    (hself : emitter.selfInjecting = true) (emission : Emission)
    (text : String) (h : Framing probes inner ids emission)
    (htext : emission.asStatement (setting config) node = .ok text) :
    Frames probes inner ids text := by
  cases emission with
  | statement code => exact frames_alone hfind hself h htext
  | value code rank => exact h.elim
  | nothing => exact h.elim

theorem Probed.keeps_choice (h : Probed probes config) {arms : String → List String}
    (henabled : node.disabled = false) (hkind : node.kind ∈ choiceKinds)
    (harms : ∀ slot ∈ branchSlots node,
      Synth.Keeps (Synth.Inside (Orderly False fun _ => True) stack)
      (Frames probes inner (arms slot)) (chainOffer (setting config) (node.statement slot)))
    (hrest : Synth.Keeps (Synth.Inside (Orderly False fun _ => True) stack)
      (Frames probes inner rest) (chainOffer (setting config) node.next)) :
    Synth.Keeps (Synth.Inside (Orderly False fun _ => True) stack)
      (Frames probes inner ((branchSlots node).flatMap arms ++ rest))
      (chainOffer (setting config) (some node)) := by
  have hfind := find?_choice hkind
  have hmeets := @framing_conditional _ _ inner
    (fun slot code => slot ∈ branchSlots node → Frames probes inner (arms slot) code)
      (fun _ _ => True)
    (fun _ => True) h arms node fun slot hslot code hcode => hcode hslot
  refine keeps_enabled henabled
    (h.keeps_emission hfind hmeets (fun slot => h.keeps_slot fun hslot => ?_)
    (fun slot => h.keeps_any (node.statement slot)) trivial) (frames_of_framing hfind rfl) hrest
  exact (harms slot hslot).mono fun _ hcode => hcode.indent h.indent

theorem Probed.keeps_jump (h : Probed probes config)
    {outer : String} (henabled : node.disabled = false)
    (hkind : node.kind = "controls_flow_statements") (hstack : stack.head? = some outer)
    (hrest : Synth.Keeps (Synth.Inside (Orderly False fun _ => True) stack)
      (Frames probes (some outer) rest) (chainOffer (setting config) node.next)) :
    Synth.Keeps (Synth.Inside (Orderly False fun _ => True) stack) (Frames probes (some outer) rest)
      (chainOffer (setting config) (some node)) := by
  have hfind : catalog.find? node.kind = some ⟨jump, true⟩ := hkind ▸ find?_jump
  have hmeets :=
    @framing_jump _ _ (fun _ _ => True) (fun _ _ => True) (fun id => id = some outer) h outer
    (fun _ hid => hid) node
  have hemission := h.keeps_emission hfind hmeets (fun slot => h.keeps_any (node.statement slot))
    (fun slot => h.keeps_any (node.statement slot)) hstack
  exact @keeps_enabled _ _ _ [] _ _ _ henabled _ hemission (frames_of_framing hfind rfl) hrest

/-- The code of a chain is framed, if the innermost loop of the session is the one
around the chain. -/
theorem Probed.keeps_frames (h : Probed probes config)
    {first : Option Node} (hbuilt : Built inner first ids)
    (hstack : ∀ outer, inner = some outer → stack.head? = some outer) :
    Synth.Keeps (Synth.Inside (Orderly False fun _ => True) stack) (Frames probes inner ids)
      (chainOffer (setting config) first) := by
  induction hbuilt generalizing stack with
  | done => exact Synth.Keeps.pure frames_empty
  | disabled hdisabled _ ih => exact keeps_disabled hdisabled (ih hstack)
  | plain henabled hkind _ ih => exact h.keeps_plain henabled hkind (ih hstack)
  | loop henabled hkind _ _ ihbody ih =>
    exact h.keeps_loop henabled hkind (ihbody fun _ => id) (ih hstack)
  | choice henabled hkind _ _ iharms ih =>
    exact h.keeps_choice henabled hkind (fun slot hslot => iharms slot hslot hstack) (ih hstack)
  | jump henabled hkind _ ih => exact h.keeps_jump henabled hkind (hstack _ rfl) (ih hstack)

/-! ### Executions -/

theorem Framed.exit_eq_none {block : Block} (h : Framed probes none ids block) {trace : List Event}
    {exit : Option Jump} (hruns : block.Runs trace exit) : exit = none := by
  cases exit with
  | none => rfl
  | some kind =>
    obtain ⟨_, _, hloop, _⟩ := h.runs trace (some kind) hruns
    simp at hloop

/-- An execution that does anything begins with the mark before a statement. -/
theorem Framed.trace_eq_nil {block : Block} (h : Framed probes inner ids block)
    {trace : List Event} {exit : Option Jump} (hruns : block.Runs trace exit)
    (hnone : probes.brackets trace = []) : trace = [] := by
  rcases h.starts trace exit hruns with ⟨rfl, -⟩ | ⟨id, rest, rfl⟩
  · rfl
  · simp [Probes.brackets_before] at hnone

/-- On every path through the code of a chain the marks before and after statements
come in pairs with equal ids. Where a path enters the body of a loop it comes to the
trap of that loop, once, before the next statement. -/
theorem executions_are_bracketed {first : Option Node}
    {session next : Session} {code : String} (hprobed : Probed probes config)
    (hreach : Reachable (setting config) session) (hbuilt : Built none first ids)
    (hrender : (setting config).renderChain first session = .ok code next) :
    ∃ program, program? code.toList = some program ∧ program.loops.length = ids.length ∧
      ∀ trace exit, program.Runs trace exit →
        exit = none ∧
        (∃ order : List String,
          probes.brackets trace = order.flatMap bracket ∧ (order = [] → trace = [])) ∧
        ∀ earlier body later, trace = earlier ++ .entered body :: later →
          body ∈ program.loops ∧ ∀ id, (id, body) ∈ ids.zip program.loops →
            probes.marks (probes.untilStatement later) = [.of .after id, .of .trap id] := by
  have hkeeps :=
    @Probed.keeps_frames probes config none ids session.loops hprobed first hbuilt (by simp)
  obtain ⟨⟨program, hwritten, hframed⟩, -⟩ :=
    hkeeps.of_ok ⟨⟨named_of_reachable hreach, False.elim⟩, rfl⟩ hrender
  refine ⟨program, hwritten.program?_eq, hframed.loops.length_eq.symm, fun trace exit hruns => ?_⟩
  obtain rfl := hframed.exit_eq_none hruns
  refine ⟨rfl, ?_, fun earlier body later htrace => ?_⟩
  · obtain ⟨order, horder⟩ := hframed.runs trace none hruns
    refine ⟨order, horder, ?_⟩
    rintro rfl
    exact hframed.trace_eq_nil hruns horder
  · obtain ⟨hmem, round, rest, jumped, rfl, hround⟩ := hruns.entered htrace
    refine ⟨hmem, fun id hid => ?_⟩
    exact (List.forall₂_zip hframed.loops hid).marks_untilStatement hround rest

/-- Calls of three words around statements and loops. -/
def signals : Config :=
  { beforeStatement := some "enter(%1);\n", afterStatement := some "leave(%1);\n",
    loopTrap := some "turn(%1);\n" }

def wayOut : Node :=
  { id := "out", kind := "controls_flow_statements", fields := [("FLOW", .text "BREAK")] }

/-- A loop that is left in its first round. -/
def brokenLoop : Node :=
  { id := "loop", kind := "controls_whileUntil", statements := [("DO", wayOut)] }

theorem jump_wayOut (config : Config) :
    jump config wayOut = .enclosingLoop fun loop => .done (.statement
    (config.before quotes "out" ++ config.after quotes "out" ++
      (match loop with | some id => config.before quotes id | none => "") ++ "break;\n")) := rfl

theorem whileLoop_brokenLoop (config : Config) : whileLoop config brokenLoop =
    .value "BOOL" .none fun code => .loopBody "DO" fun body =>
      let condition := code.getD "false"
      .done (.statement (braces s!"while ({condition})" body ++ "\n")) := rfl

theorem chain_wayOut (config : Config) (session : Session) :
    ∃ code, chainOffer (setting config) (some wayOut) session = .ok code session := by
  have hemission : ∃ code,
      (wayOut.offer (setting config)).emission session = .ok (.statement code) session := by
    rw [@emission_of_kind config wayOut "controls_flow_statements" _ rfl find?_jump]
    dsimp only
    rw [jump_wayOut]
    exact ⟨_, rfl⟩
  obtain ⟨code, hcode⟩ := hemission
  exact chain_of_statement hcode rfl rfl

theorem emission_brokenLoop (config : Config) (session : Session) :
    ∃ code,
      (brokenLoop.offer (setting config)).emission session = .ok (.statement code) session := by
  have hfind : catalog.find? "controls_whileUntil" = some ⟨whileLoop, false⟩ :=
    (find?_catalog (by decide)).trans rfl
  obtain ⟨body, hbody⟩ := chain_wayOut config { session with loops := "loop" :: session.loops }
  have hcondition : Script.atSlot (slotOffers (setting config) brokenLoop.inputs) "BOOL" none
      (fun offer => offer.value .none) session = .ok none session := rfl
  have hround : Synth.inLoop "loop"
      (Script.atSlot (slotOffers (setting config) brokenLoop.statements) "DO" ""
      Offer.chain) session = .ok body session := by
    have hslot : brokenLoop.statements.lookup "DO" = some wayOut := rfl
    rw [atSlot_chain, hslot]
    exact Synth.inLoop_of_ok hbody
  rw [@emission_of_kind config brokenLoop "controls_whileUntil" _ rfl hfind]
  dsimp only
  rw [whileLoop_brokenLoop]
  exact ⟨_, (Synth.bind_of_ok hcondition _).trans (Synth.bind_of_ok hround _)⟩

theorem signals_probed : Probed ⟨"enter", "leave", "turn"⟩ signals where
  indent := by decide
  apt := ⟨⟨by decide, by decide +kernel⟩, ⟨by decide, by decide +kernel⟩,
    ⟨by decide, by decide +kernel⟩, by decide⟩
  before := by decide
  after := by decide
  trap := by decide

/-- A loop that is left in its first round, with calls of three words around
statements and loops. -/
theorem executions_of_broken_loop_are_bracketed :
    let probes : Probes := ⟨"enter", "leave", "turn"⟩
    let start := (setting signals).session
    Probed probes signals ∧ Built none (some brokenLoop) ["loop"] ∧
    ∃ code, (setting signals).renderChain (some brokenLoop) start = .ok code start ∧
      ∃ program, program? code.toList = some program ∧ program.loops.length = 1 ∧
        ∀ trace exit, program.Runs trace exit →
          exit = none ∧
          (∃ order : List String,
            probes.brackets trace = order.flatMap bracket ∧ (order = [] → trace = [])) ∧
          ∀ earlier body later, trace = earlier ++ .entered body :: later →
            body ∈ program.loops ∧ ∀ id, (id, body) ∈ ["loop"].zip program.loops →
              probes.marks (probes.untilStatement later) = [.of .after id, .of .trap id] := by
  intro probes start
  have hbuilt : Built none (some brokenLoop) ["loop"] := by
    have hbody : Built (some "loop") (brokenLoop.statement "DO") [] := .jump rfl rfl .done
    exact @Built.loop none brokenLoop "DO" [] [] rfl (by decide) hbody .done
  obtain ⟨emitted, hemission⟩ := emission_brokenLoop signals start
  obtain ⟨code, hcode⟩ := chain_of_statement hemission rfl rfl
  exact ⟨signals_probed, hbuilt, code, hcode,
    executions_are_bracketed signals_probed .start hbuilt hcode⟩

end BlockSynth.Zig
