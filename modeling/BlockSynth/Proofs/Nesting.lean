import BlockSynth.Described
import BlockSynth.Proofs.Placed

/-! # The stack of loops is the nesting of loops

A session keeps the ids of the loops that it is inside of. Whatever is asked of it leaves that stack
as it was, also when it fails in the middle of a loop. So at a node that is reached along a way the
stack holds the loops whose bodies the way goes into, innermost first, before those that were there
at the start, and what is rendered is what the ways tell without a stack. A part of a rule that
tells the loop around its node could as well have been written out.
-/
namespace BlockSynth

/-! ### Loops are left again -/

/-- A contract that asks for nothing. -/
def Contract.free : Contract where
  value _ _ := True
  lines _ _ := True
  body _ _ := True
  loop _ := True
  word _ := True
  helper _ := True
  require _ := True
  define _ := True
  session _ := True
  emission _ := True
  chain _ := True

theorem Contract.free_upheld (setting : Setting) : Contract.free.Upheld setting where
  resolve _ _ _ _ := ⟨trivial, trivial⟩
  fresh _ _ _ := ⟨trivial, trivial⟩
  provide _ _ _ _ _ := ⟨trivial, trivial⟩
  require _ _ _ _ _ := trivial
  define _ _ _ _ _ := trivial
  loops _ _ _ := trivial
  wrap _ _ _ _ _ := trivial
  statement _ _ _ _ _ := trivial
  naked _ _ _ _ _ := trivial
  chain_nil := trivial
  chain_append _ _ _ _ := trivial
  lines _ _ _ := trivial
  loopBody _ _ _ _ := trivial
  loop _ := trivial
  emitter _ emitter _ node := (emitter.script setting.config node).meets_free

theorem Synth.Keeps.loops_leaves {α : Type} {inv : Session → Prop} {answer : α → Prop}
    {step : Synth α} (h : Keeps inv answer step) (session : Session) (hsession : inv session) :
    (step.leaves session).loops = session.loops := by
  have hstep := h session hsession
  unfold leaves
  cases hrun : step session with
  | ok result after =>
    rw [hrun] at hstep
    exact hstep.2.2
  | error fault after =>
    rw [hrun] at hstep
    exact hstep.2

/-- Whatever is asked of a session, it is afterwards inside of the same loops. -/
theorem Request.loops_leaves {setting : Setting} {α : Type}
    {step : Synth α} (h : Request setting step) (session : Session) :
    (step.leaves session).loops = session.loops := by
  have hfree := Contract.free_upheld setting
  cases h with
  | ask node script => exact (hfree.ask node script.meets_free).loops_leaves session trivial
  | renderValue node place fallback =>
    exact (hfree.renderValue node place fallback).loops_leaves session trivial
  | renderChain first => exact (hfree.chainOffer_keeps first).loops_leaves session trivial
  | renderRoot root => exact (hfree.renderRoot root).loops_leaves session trivial

theorem loops_of_ask {setting : Setting} {node : Node} {α : Type}
    {script : Script α} {session after : Session} {answer : α}
    (h : setting.ask node script session = .ok answer after) : after.loops = session.loops := by
  rw [← (Request.ask node script : Request setting _).loops_leaves session, Synth.leaves_of_ok h]

theorem loops_of_lines {setting : Setting} {node : Node} {session after : Session} {code : String}
    (h : setting.lines node session = .ok code after) : after.loops = session.loops := by
  have hfree := (Contract.free_upheld setting).offer node
  have hlines : Synth.Keeps (fun _ => True) (fun _ => True) (setting.lines node) := by
    unfold Setting.lines
    split
    · exact Synth.Keeps.pure trivial
    · exact hfree.emission.bind fun emission _ => Synth.Keeps.ofExcept fun _ _ => trivial
  rw [← hlines.loops_leaves session trivial, Synth.leaves_of_ok h]

/-! ### Along a way -/

theorem Setting.Asks.loops {setting : Setting} {node : Node} {α : Type} {script : Script α}
    {link : Link} {session asked : Session} (h : setting.Asks node script session link asked) :
    asked.loops = session.loops := by
  induction h with
  | now session hlink => rfl
  | later hfirst _ ih => exact ih.trans (loops_of_ask hfirst)

/-- At a node that is reached, the session is inside of the loops that the way goes into, and of
those that it was inside of at the start. -/
theorem Reaches.loops {setting : Setting} {place : Shape}
    {node target : Node} {session found : Session} {way : List Step}
    (h : Reaches setting place node session way target found) :
    found.loops = (way.filterMap Step.loop?).reverse ++ session.loops := by
  induction h with
  | here place session henabled => rfl
  | @slot node child target emitter link session asked found way place henabled hfind
    hasks hchild _ ih =>
    rw [ih, Session.along, hasks.loops]
    cases hloop : Step.loop? ⟨node, link⟩ with
    | none => simp [hloop]
    | some id => simp [hloop]
  | next hlines hnext _ ih =>
    rw [ih, loops_of_lines hlines]
    rfl

theorem Reaches.head?_loops {setting : Setting} {place : Shape}
    {node target : Node} {session found : Session} {way : List Step}
    (h : Reaches setting place node session way target found) :
    found.loops.head? = (innermost way).or session.loops.head? := by
  rw [h.loops, List.head?_append, ← List.filterMap_reverse, List.head?_filterMap]
  rfl

/-! ### Loops that are told -/

namespace Script

variable {α β : Type}

/-- The script of a node that is known to stand in a certain loop. -/
def inside (loop : Option String) : Script α → Script α
  | done answer => done answer
  | fail fault => fail fault
  | value slot rank next => value slot rank fun code => (next code).inside loop
  | statements slot next => statements slot fun code => (next code).inside loop
  | loopBody slot next => loopBody slot fun code => (next code).inside loop
  | enclosingLoop next => (next loop).inside loop
  | resolve space name next => resolve space name fun word => (next word).inside loop
  | fresh name next => fresh name fun word => (next word).inside loop
  | helper key template next => helper key template fun name => (next name).inside loop
  | require tag text next => require tag text (next.inside loop)
  | define name text next => define name text (next.inside loop)

theorem inside_bind (loop : Option String) (script : Script α) (next : α → Script β) :
    (script >>= next).inside loop = script.inside loop >>= fun answer =>
      (next answer).inside loop := by
  show (script.bind next).inside loop = (script.inside loop).bind fun answer =>
    (next answer).inside loop
  induction script with
  | done answer => rfl
  | fail fault => rfl
  | value slot rank rest ih => simp only [bind, inside, ih]
  | statements slot rest ih => simp only [bind, inside, ih]
  | loopBody slot rest ih => simp only [bind, inside, ih]
  | enclosingLoop rest ih => simp only [bind, inside, ih]
  | resolve space name rest ih => simp only [bind, inside, ih]
  | fresh name rest ih => simp only [bind, inside, ih]
  | helper key template rest ih => simp only [bind, inside, ih]
  | require tag text rest ih => simp only [bind, inside, ih]
  | define name text rest ih => simp only [bind, inside, ih]

end Script

namespace Setting

variable {α β : Type} (setting : Setting) (node : Node)

/-- What comes after a request may rely on the loops that there were before it. -/
theorem ask_bind_congr (request : Script β) {next other : β → Script α} {session : Session}
    (h : ∀ answer later, later.loops = session.loops →
      setting.ask node (next answer) later = setting.ask node (other answer) later) :
    setting.ask node (request >>= next) session = setting.ask node (request >>= other) session := by
  rw [ask_bind, ask_bind]
  cases hrun : setting.ask node request session with
  | ok answer later =>
    rw [Synth.bind_of_ok hrun, Synth.bind_of_ok hrun]
    exact h answer later (loops_of_ask hrun)
  | error fault later => rw [Synth.bind_of_error hrun, Synth.bind_of_error hrun]

/-- The loop that a script asks for is the one that its node stands in, wherever in
the script that is. -/
theorem ask_inside {loop : Option String} (script : Script α) {session : Session}
    (h : session.loops.head? = loop) :
    setting.ask node script session = setting.ask node (script.inside loop) session := by
  induction script generalizing session with
  | done answer => rfl
  | fail fault => rfl
  | value slot rank next ih =>
    exact setting.ask_bind_congr node (.askValue slot rank) fun code later hlater =>
      ih code (hlater ▸ h)
  | statements slot next ih =>
    exact setting.ask_bind_congr node (.askStatements slot) fun code later hlater =>
      ih code (hlater ▸ h)
  | loopBody slot next ih =>
    exact setting.ask_bind_congr node (.askLoopBody slot) fun code later hlater =>
      ih code (hlater ▸ h)
  | enclosingLoop next ih =>
    subst h
    exact ih session.loops.head? rfl
  | resolve space name next ih =>
    exact setting.ask_bind_congr node (.resolve space name .done) fun word later hlater =>
      ih word (hlater ▸ h)
  | fresh name next ih =>
    exact setting.ask_bind_congr node (.freshName name) fun word later hlater =>
      ih word (hlater ▸ h)
  | helper key template next ih =>
    exact setting.ask_bind_congr node (.askHelper key template) fun word later hlater =>
      ih word (hlater ▸ h)
  | require tag text next ih =>
    exact setting.ask_bind_congr node (.requireText tag text) fun _ later hlater => ih (hlater ▸ h)
  | define name text next ih =>
    exact setting.ask_bind_congr node (.defineText name text) fun _ later hlater => ih (hlater ▸ h)

end Setting

/-! ### Rules with their loops written out -/

/-- A part, with the text of the loop around its node in place of a request for it. -/
def Part.within (text : String) : Part → Part
  | .enclosingLoop => .literal text
  | part => part

def Rule.within (text : String) (rule : Rule) : Rule :=
  { rule with parts := rule.parts.map (Part.within text) }

theorem Part.script_within (config : Config) (node : Node) (loop : Option String) (part : Part) :
    (part.script config node).inside loop = (part.within (loop.getD "-")).script config node := by
  cases part with
  | field name =>
    simp only [Part.within, Part.script]
    cases node.field name <;> rfl
  | _ => rfl

theorem Part.scripts_within (config : Config) (node : Node)
    (loop : Option String) (parts : List Part) :
    (Part.scripts config node parts).inside loop =
      Part.scripts config node (parts.map (Part.within (loop.getD "-"))) := by
  induction parts with
  | nil => rfl
  | cons part rest ih =>
    simp only [Part.scripts, List.map_cons, Script.inside_bind, Part.script_within, ih]
    rfl

theorem Rule.script_within (config : Config) (node : Node) (loop : Option String) (rule : Rule) :
    (rule.emitter.script config node).inside loop =
      (rule.within (loop.getD "-")).emitter.script config node := by
  show (Part.scripts config node rule.parts >>= fun text =>
    Script.done (rule.emission text)).inside loop = _
  rw [Script.inside_bind, Part.scripts_within]
  rfl

/-- The emitters of a described target are those of rules. -/
theorem Description.exists_rule {description : Description} {kind : String}
    {emitter : Emitter} (h : description.catalog.find? kind = some emitter) :
    ∃ rule : Rule, emitter = rule.emitter := by
  have hall : description.catalog.All fun emitter => ∃ rule : Rule, emitter = rule.emitter := by
    refine Catalog.All.withAliases (Catalog.All.registerAll (List.forall_mem_nil _) ?_)
      description.aliases
    intro entry hentry
    obtain ⟨⟨kind', rule⟩, -, rfl⟩ := List.mem_map.mp hentry
    exact ⟨rule, rfl⟩
  exact hall.find? h

/-- Whatever is asked of a session, it is left inside of the loops that it was inside of. What it
renders is what is rendered with no stack at all, where the script of a node is told the last loop
that the way to the node goes into the body of, and where there is none the one at the start. At a
node that is reached along a way the emission is the one of the node placed there, so the parts of a
rule that tell the loop could as well have been written out. -/
theorem loops_are_those_of_the_way :
    (∀ (setting : Setting) {α : Type} {step : Synth α}, Request setting step → ∀ session,
      (step.leaves session).loops = session.loops) ∧
    (∀ (setting : Setting) (session : Session),
      let start := session.loops.head?
      (∀ node place fallback, setting.renderValue node place fallback session =
        (setting.valuePlaced start node place fallback).synth session) ∧
      (∀ first,
        setting.renderChain first session = (chainPlaced setting start [] first).synth session) ∧
      ∀ root, setting.renderRoot root session = (setting.rootPlaced start root).synth session) ∧
    ∀ (description : Description) (config : Config) {place : Shape} {node target : Node}
      {session found : Session} {way : List Step},
      let setting : Setting := ⟨description.target, config⟩
      let loop := ((innermost way).or session.loops.head?).getD "-"
      Reaches setting place node session way target found →
        (target.offer setting).emission found =
          (target.placed setting session.loops.head? way).emission.synth found ∧
        ∀ emitter, setting.target.catalog.find? target.kind = some emitter →
          ∃ rule : Rule, emitter = rule.emitter ∧ (target.offer setting).emission found =
            setting.ask target ((rule.within loop).emitter.script config target) found := by
  refine ⟨fun setting _ _ hrequest session => hrequest.loops_leaves session,
    fun setting session => ?_, ?_⟩
  · exact ⟨setting.renderValue_eq_placed session, setting.renderChain_eq_placed session,
      setting.renderRoot_eq_placed session⟩
  · intro description config place node target session found way setting loop hreaches
    refine ⟨(target.offer_isAt setting _ way).emission found hreaches.head?_loops,
      fun emitter hfind => ?_⟩
    obtain ⟨rule, rfl⟩ := Description.exists_rule hfind
    refine ⟨rule, rfl, ?_⟩
    rw [emission_of_find? hfind, setting.ask_inside target _ hreaches.head?_loops]
    rw [Rule.script_within]

/-- Behind a loop in the body of another one it is the outer loop that is told, and
that is printed. -/
theorem loop_behind_inner_loop_is_the_outer_one :
    let description : Description :=
      { rules := [("loop", { shape := .statement, parts := [.loop "DO"] }),
      ("tell", { shape := .statement, parts := [.enclosingLoop, .literal "\n"] })] }
    let setting : Setting := ⟨description.target, {}⟩
    let teller : Node := { id := "n3", kind := "tell" }
    let inner : Node := { id := "n2", kind := "loop", next := some teller }
    let outer : Node :=
      { id := "n1", kind := "loop", statements := [("DO", inner)], next := some teller }
    let session : Session := { loops := ["n0"] }
    let found : Session := { loops := ["n1", "n0"] }
    Reaches setting .statement outer session [⟨outer, .loop "DO"⟩, ⟨inner, .next⟩] teller found ∧
      (setting.renderRoot outer).run' session = some "    n1\nn0\n" ∧
      ((setting.renderRoot outer).leaves session).loops = ["n0"] ∧
      ∃ rule : Rule, setting.target.catalog.find? "tell" = some rule.emitter ∧
        (teller.offer setting).emission found =
          setting.ask teller ((rule.within "n1").emitter.script {} teller) found := by
  intro description setting teller inner outer session found
  obtain ⟨hloops, hplaced, htold⟩ := loops_are_those_of_the_way
  have hreaches : Reaches setting .statement outer session [⟨outer, .loop "DO"⟩, ⟨inner, .next⟩]
      teller found := by
    apply Reaches.slot .statement rfl rfl (.now session rfl) rfl
    apply Reaches.next rfl rfl
    exact Reaches.here .statement found rfl
  have hprinted : (setting.renderRoot outer).run' session = some "    n1\nn0\n" := by
    unfold EStateM.run' EStateM.run
    rw [(hplaced setting session).2.2 outer]
    decide +kernel
  obtain ⟨rule, hrule, hemission⟩ := (htold description {} hreaches).2 _ rfl
  exact ⟨hreaches, hprinted, hloops setting (.renderRoot outer) session, rule,
    congrArg some hrule, hemission⟩

end BlockSynth
