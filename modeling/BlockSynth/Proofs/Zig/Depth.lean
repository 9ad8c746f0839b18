import BlockSynth.Proofs.Depth
import BlockSynth.Proofs.Program.History
import BlockSynth.Proofs.Zig.Whole

/-! # Zig code is indented as deep as it is nested

The emitters with statement slots put the code of a slot between braces, behind a line break. A
procedure does so in the text that it defines, and adds nothing where it stands.
-/
namespace BlockSynth.Zig

open Chars Script

variable {config : Config} {ended : Prop} {code : String}

/-! ### Where lines end -/

theorem WholeTemplates.lineEnding (h : WholeTemplates config) : (setting config).LineEnding where
  comments node := whole_comments commentMark node
  before := whole_injected h.before
  after := whole_injected h.after
  trap := whole_injected h.trap
  lines node session here last hrun := by
    have hupheld := lining_upheld h
    unfold Setting.lines at hrun
    split at hrun
    · obtain ⟨rfl, -⟩ := EStateM.Result.ok.inj hrun
      exact whole_nil
    · have hlines : Synth.Keeps (fun _ => True) (fun code => Whole code.toList) (do
          MonadExcept.ofExcept
            ((← (node.offer (setting config)).emission).asStatement (setting config) node)) :=
        (hupheld.offer node).emission.bind fun emission hemission =>
          Synth.Keeps.ofExcept fun text htext =>
            hupheld.statement emission node text hemission htext
      exact (hlines.of_ok trivial hrun).1
  chain first session code last hrun :=
    (((lining_upheld h).chainOffer_keeps first).of_ok trivial hrun).1

theorem embeds_braces {body : String} (h : Text.Houses ended code body) (head : String) :
    Text.Embeds ended code (braces head body) := by
  refine ⟨head ++ " \x7b", body, "\x7d", ?_, h⟩
  rw [← String.toList_inj]
  show (head ++ " \x7b\n" ++ body ++ "\x7d").toList = _
  simp

/-! ### Emitters -/

/-- Whatever the emitter is answered for a statement slot, it ends in a statement that
houses that. -/
def Sets (config : Config) (emitter : Emitter) : Prop :=
  ∀ node, (emitter.script config node).Places fun code rest =>
    rest.Meets .free (Emission.Houses (WholeTemplates config) code)

theorem Still.sets {emitter : Emitter} (h : Still config emitter) : Sets config emitter :=
  fun node => (h node).places

theorem sets_repeatLoop : Sets config ⟨repeatLoop, false⟩ := by
  intro node
  have htimes : (repeatTimes node).Calm fun _ => True := by simp [repeatTimes]
  refine htimes.places_bind fun times => ?_
  -- How the bound is kept does not matter for the body, only that no slot is asked for.
  have hbound : (cacheBound times "repeat_end").Calm fun _ => True :=
    calm_cacheBound _ _ fun _ => trivial
  generalize cacheBound times "repeat_end" = caching at hbound ⊢
  refine places_askLoopBody "DO" (fun code => ?_) fun code counter =>
    hbound.places_bind fun bound => trivial
  refine meets_free_bind fun counter => meets_free_bind fun bound => ⟨_, rfl, ?_⟩
  exact (((embeds_braces (Text.houses_self _ code) _).lead _).tail "\n").houses

theorem sets_whileLoop : Sets config ⟨whileLoop, false⟩ := by
  intro node
  have hmode : (choose node "MODE" (until? (optionOr node "MODE" "WHILE"))).Calm fun _ => True := by
    simp
  refine hmode.places_bind fun negated condition =>
    places_askLoopBody "DO" (fun code => ⟨_, rfl, ?_⟩) fun code => ?_
  · exact ((embeds_braces (Text.houses_self _ code) _).tail "\n").houses
  · exact trivial

theorem sets_countLoop : Sets config ⟨countLoop, false⟩ := by
  intro node
  have hname : (variableOf node).Calm fun _ => True := calm_variableOf node fun _ => trivial
  refine hname.places_bind fun name start finish step => ?_
  have hbound : ∀ code name, (cacheBound code name).Calm fun _ => True :=
    fun _ _ => calm_cacheBound _ _ fun _ => trivial
  generalize cacheBound = caching at hbound ⊢
  refine places_askLoopBody "DO" (fun code => ?_) fun code => ?_
  · split
    · exact ⟨_, rfl, (((embeds_braces (Text.houses_self _ code) _).lead _).tail "\n").houses⟩
    · refine meets_free_bind fun first => meets_free_bind fun last =>
        meets_free_bind fun increment => ⟨_, rfl, ?_⟩
      exact (((embeds_braces (Text.houses_self _ code) _).lead _).tail "\n").houses
  · split
    · exact trivial
    · exact (hbound _ _).places_bind fun first =>
        (hbound _ _).places_bind fun last increment => trivial

theorem sets_eachLoop : Sets config ⟨eachLoop, false⟩ := by
  intro node
  have hname : (variableOf node).Calm fun _ => True := calm_variableOf node fun _ => trivial
  have hitems : (itemsOr "LIST").Calm fun _ => True := calm_itemsOr "LIST" fun _ => trivial
  refine hname.places_bind fun name => hitems.places_bind fun items => ?_
  refine places_askLoopBody "DO" (fun code => meets_free_bind fun capture => ⟨_, rfl, ?_⟩)
    fun code capture => trivial
  have htake : Finished s!"{config.indentUnit}{name} = {capture};\n" := by simp
  exact ((embeds_braces ((Text.houses_self _ code).lead fun _ => htake.whole) _).tail "\n").houses

theorem sets_iterations : ∀ entry ∈ iterations, Sets config entry.2 := by
  simp [iterations, sets_repeatLoop, sets_whileLoop, sets_countLoop, sets_eachLoop, still_jump.sets]

theorem sets_every : Sets config ⟨every, false⟩ := by
  intro node
  refine places_askLoopBody "STMTS" (fun code => ⟨_, rfl, ?_⟩) fun code => trivial
  exact (((embeds_braces ((Text.houses_self _ code).tail _) _).lead _).tail "\n").houses

theorem places_conditionalArms (lead : String)
    (hlead : ended → Whole lead.toList) (numbers : List Nat) :
    (conditionalArms lead numbers).Places fun code rest =>
      rest.Meets .free fun arms => ∃ arm ∈ arms, Text.Embeds ended code arm := by
  induction numbers with
  | nil => exact trivial
  | cons n rest ih =>
    refine fun condition => places_askStatements s!"DO{n}" (fun code => ?_) fun code => ?_
    · refine meets_free_bind fun arms => ⟨_, List.mem_cons_self, ?_⟩
      exact embeds_braces ((Text.houses_self ended code).lead hlead) _
    · refine Places.bind (ih.mono fun inner more hmore => ?_) fun arms => trivial
      refine hmore.bind fun arms harms => ?_
      obtain ⟨arm, hmem, harm⟩ := harms
      exact ⟨arm, List.mem_cons_of_mem _ hmem, harm⟩

theorem sets_conditional : Sets config ⟨conditional, true⟩ := by
  intro node
  have hlead : WholeTemplates config →
      Whole (Text.prefixLines config.indentUnit (config.after quotes node.id)).toList := fun h =>
    whole_prefixLines config.indentUnit (whole_injected h.after node.id)
  refine Places.bind
    ((places_conditionalArms _ hlead _).mono fun code rest hrest => ?_) fun arms => ?_
  · refine hrest.bind fun arms harms => ?_
    obtain ⟨arm, hmem, harm⟩ := harms
    have harms := (Text.embeds_join " else " hmem harm).lead (config.before quotes node.id)
    split
    · exact meets_free_bind fun branch => ⟨_, rfl, ((harms.tail _).tail "\n").houses⟩
    · exact ⟨_, rfl, ((harms.tail "").tail "\n").houses⟩
  · split
    · refine places_askStatements "ELSE" (fun code => ⟨_, rfl, ?_⟩) fun code => trivial
      have hblock := embeds_braces ((Text.houses_self _ code).lead hlead) "else"
      exact (((hblock.lead " ").lead _).tail "\n").houses
    · exact trivial

theorem sets_emitters :
    ∀ entry ∈ emitters, entry.1 = "procedures_defreturn" ∨ Sets config entry.2 := by
  have hsets : ∀ {entries : List (String × Emitter)}, (∀ entry ∈ entries, Sets config entry.2) →
      ∀ entry ∈ entries, entry.1 = "procedures_defreturn" ∨ Sets config entry.2 :=
    fun h entry hentry => .inr (h entry hentry)
  have hstill : ∀ {entries : List (String × Emitter)}, (∀ entry ∈ entries, Still config entry.2) →
      ∀ entry ∈ entries, entry.1 = "procedures_defreturn" ∨ Sets config entry.2 :=
    fun h entry hentry => .inr (h entry hentry).sets
  have hchoices : ∀ entry ∈ choices, entry.1 = "procedures_defreturn" ∨ Sets config entry.2 :=
    List.forall_mem_cons.mpr ⟨.inr sets_conditional, hstill still_choices⟩
  have hroutines : ∀ entry ∈ routines, entry.1 = "procedures_defreturn" ∨ Sets config entry.2 :=
    List.forall_mem_cons.mpr ⟨.inl rfl, hstill still_routines⟩
  have hdevices : ∀ entry ∈ devices, entry.1 = "procedures_defreturn" ∨ Sets config entry.2 :=
    List.forall_mem_cons.mpr ⟨.inr sets_every, hstill still_devices⟩
  simp only [emitters, List.forall_mem_append]
  exact ⟨⟨⟨⟨⟨⟨⟨⟨⟨⟨⟨hchoices, hsets sets_iterations⟩, hstill still_arithmetic⟩,
    hstill still_statistics⟩, hstill still_wordings⟩, hstill still_positions⟩,
    hstill still_slices⟩, hstill still_sequences⟩, hstill still_palette⟩,
    hstill still_bindings⟩, hroutines⟩, hdevices⟩

/-! ### Ways through code -/

/-- The kinds of nodes that define a procedure. -/
def definitionKinds : List String :=
  ["procedures_defreturn", "procedures_defnoreturn"]

/-- The step goes on in the chain, or into a statement slot of a node whose code
stands where the node does. -/
def Inline (step : Step) : Prop :=
  step.link = .next ∨ step.link.isSlot = true ∧ step.node.kind ∉ definitionKinds

theorem Inline.carries {step : Step} (h : Inline step) :
    (setting config).Carries (WholeTemplates config) step := by
  rcases h with hnext | ⟨hslot, hkind⟩
  · exact .inl hnext
  · refine .inr ⟨hslot, fun emitter hfind => ?_⟩
    rw [catalog_setting] at hfind
    obtain ⟨name, hmem, hname⟩ := registered_of_find? hfind
    rcases sets_emitters _ hmem with hdefinition | hsets
    · have haliases : ∀ pair ∈ aliases,
          pair.2 = "procedures_defreturn" → pair.1 ∈ definitionKinds := by decide
      obtain rfl : name = "procedures_defreturn" := hdefinition
      exfalso
      rcases hname with hname | halias
      · exact hkind (hname ▸ List.mem_cons_self)
      · exact hkind (haliases _ halias rfl)
    · exact hsets step.node

/-! ### Procedures -/

theorem find?_definition {kind : String} (h : kind ∈ definitionKinds) :
    catalog.find? kind = some ⟨defineProcedure, true⟩ := by
  have hfind : catalog.find? "procedures_defreturn" = some ⟨defineProcedure, true⟩ :=
    (find?_catalog (by decide)).trans rfl
  rcases List.mem_pair.mp h with rfl | rfl
  · exact hfind
  · exact find?_catalog_alias (by decide) (by decide) hfind

/-- Run for the node, the script adds nothing where it stands, and leaves a procedure
with the code in it. -/
def Defines (config : Config) (node : Node) (code : String) (script : Script Emission) : Prop :=
  ∀ session emission last, (setting config).ask node script session = .ok emission last →
    emission = .nothing ∧ ∃ name text, last.definitions.get? (.procedure name) = some text ∧
      Text.Houses (WholeTemplates config) code text

theorem places_defineProcedure (node : Node) :
    (defineProcedure config node).Places (Defines config node) := by
  have hname : (option node "NAME").Calm fun _ => True := by simp
  refine hname.places_bind fun field name =>
    places_askStatements "STACK" (fun code => ?_) fun code result => ?_
  · intro session emission last hrun
    rw [Setting.ask_bind] at hrun
    obtain ⟨result, between, -, hrun⟩ := Synth.ok_of_bind hrun
    rw [Setting.ask_bind] at hrun
    obtain ⟨words, later, -, hrun⟩ := Synth.ok_of_bind hrun
    obtain ⟨rfl, rfl⟩ := EStateM.Result.ok.inj hrun
    refine ⟨rfl, name, _, (Definitions.get?_insert _ _ _ _).trans (if_pos rfl), ?_⟩
    have hinjected : WholeTemplates config → Whole (Text.prefixLines config.indentUnit
        (config.before quotes node.id ++ config.after quotes node.id)).toList := fun h =>
      whole_prefixLines _
        (whole_append (whole_injected h.before node.id) (whole_injected h.after node.id))
    have htrap : WholeTemplates config →
        Whole (Text.prefixLines config.indentUnit (config.trap quotes node.id)).toList :=
      fun h => whole_prefixLines _ (whole_injected h.trap node.id)
    have hbody := ((Text.houses_self _ code).lead htrap).lead hinjected
    rw [← String.append_assoc] at hbody
    exact ((embeds_braces (hbody.tail _) _).lead _).houses
  · exact (calm_variableNames (fun _ => trivial) node.mutation.params).places_bind
      fun words => trivial

/-- What is reached through the body of a procedure stands in the text that the
procedure is defined by. -/
theorem definition_inset {place : Shape} {node target : Node}
    {link : Link} {session found last : Session} {way : List Step}
    {emission : Emission} (hunit : '\n' ∉ config.indentUnit.toList)
    (hkind : node.kind ∈ definitionKinds) (hslot : link.isSlot = true)
    (h : Reaches (setting config) place node session (⟨node, link⟩ :: way) target found)
    (hway : ∀ step ∈ way, Inline step)
    (hrun : (node.offer (setting config)).emission session = .ok emission last) :
    emission = .nothing ∧ ∃ name text fragment left,
      last.definitions.get? (.procedure name) = some text ∧
      (setting config).renderChain (some target) found = .ok fragment left ∧
      Inset (WholeTemplates config) config.indentUnit.toList (depth way + 1)
        fragment.toList text.toList := by
  have hends : WholeTemplates config → (setting config).LineEnding := WholeTemplates.lineEnding
  have hemitter : (setting config).target.catalog.find? node.kind =
      some ⟨defineProcedure, true⟩ := by
    rw [catalog_setting]
    exact find?_definition hkind
  cases h with
  | next => simp [Link.isSlot] at hslot
  | @slot _ child _ emitter _ _ asked _ _ _ henabled hfind hasks hchild hbehind =>
    obtain rfl := Option.some.inj (hemitter.symm.trans hfind)
    rw [emission_of_find? hfind] at hrun
    obtain ⟨inner, left, rest, later, hinner, hdefines, hrest⟩ :=
      hasks.placed hslot (places_defineProcedure node) hrun
    obtain ⟨hnothing, name, text, htext, hhouses⟩ := hdefines _ _ _ hrest
    rw [hchild] at hinner
    obtain ⟨fragment, gone, hfragment, hinset⟩ :=
      hbehind.inset hunit hends (fun step hstep => (hway step hstep).carries) hinner
    refine ⟨hnothing, name, text, fragment, gone, htext, hfragment, ?_⟩
    apply (((setting config).houses_slotText hends ⟨node, link⟩ inner).trans hhouses).inset
    rw [Text.prefixLines, String.toList_ofList]
    exact hinset.indent hunit fun hended => (hends hended).chain _ _ _ _ hfragment

/-- A loop without a condition is rendered if its body is. -/
theorem chain_of_whileLoop {config : Config} {loop child : Node}
    {session next : Session} {code : String} (hkind : loop.kind = "controls_whileUntil")
    (hmode : loop.fieldText "MODE" = none) (hcondition : loop.inputs.lookup "BOOL" = none)
    (hbody : loop.statements.lookup "DO" = some child)
    (henabled : loop.disabled = false) (hlast : loop.next = none)
    (h : (setting config).renderChain (some child)
      { session with loops := loop.id :: session.loops } = .ok code next) :
    ∃ text after, (setting config).renderChain (some loop) session = .ok text after := by
  have hfind : catalog.find? "controls_whileUntil" = some ⟨whileLoop, false⟩ :=
    (find?_catalog (by decide)).trans rfl
  have hscript : whileLoop config loop = (valueOr "BOOL" .none "false" >>= fun condition =>
      askLoopBody "DO" >>= fun body =>
        done (.statement (braces s!"while ({condition})" body ++ "\n"))) := by
    unfold whileLoop optionOr
    rw [hmode]
    rfl
  have hvalue : (setting config).ask loop (valueOr "BOOL" .none "false") session =
      .ok "false" session := by
    unfold Setting.ask valueOr
    rw [Script.run, atSlot_value, hcondition]
    rfl
  have hloop : (setting config).ask loop (askLoopBody "DO") session =
      .ok ((setting config).trapLoop (Text.prefixLines config.indentUnit code) loop.id)
        { next with loops := next.loops.tail } := by
    unfold Setting.ask askLoopBody
    rw [Script.run, atSlot_chain, hbody]
    exact Synth.bind_of_ok (Synth.inLoop_of_ok h) _
  have hemission : ∃ text, (loop.offer (setting config)).emission session =
      .ok (.statement text) { next with loops := next.loops.tail } := by
    rw [emission_of_kind hkind hfind]
    show ∃ text, (setting config).ask loop (whileLoop config loop) session = _
    rw [hscript, Setting.ask_bind, Synth.bind_of_ok hvalue, Setting.ask_bind,
      Synth.bind_of_ok hloop]
    exact ⟨_, rfl⟩
  obtain ⟨text, htext⟩ := hemission
  obtain ⟨whole, hwhole⟩ := chain_of_statement htext henabled hlast
  exact ⟨whole, _, hwhole⟩

/-! ### Composition -/

/-- Whole lines are indented by themselves, and a text that is indented twice is indented by both
marks. Nothing else changes, so the marks can be taken off again. Hence along a way what is rendered
is indented by a unit for each statement slot, in the code of a chain as well as in that of a
procedure. Where injected texts do not end their lines, and in described code, this is so from the
second line on, since the first one may begin in the middle of another. -/
theorem indentation_composes :
    (∀ mark text more : String, Whole text.toList →
      Text.prefixLines mark (text ++ more) =
        Text.prefixLines mark text ++ Text.prefixLines mark more) ∧
    (∀ other mark text : String, '\n' ∉ mark.toList →
      Text.prefixLines other (Text.prefixLines mark text) = Text.prefixLines (other ++ mark) text) ∧
    (∀ mark text : String, (Text.prefixLines mark text = "" ↔ text = "") ∧
      ((Text.prefixLines mark text).toList.getLast? = some '\n' ↔
        text.toList.getLast? = some '\n')) ∧
    (∀ mark text : String, '\n' ∉ mark.toList →
      unprefixLines mark.toList (Text.prefixLines mark text).toList = some text.toList) ∧
    (∀ (config : Config) {place : Shape} {root target : Node}
      {session found last : Session} {way : List Step}
      {code : String}, '\n' ∉ config.indentUnit.toList →
      Reaches (setting config) place root session way target found → (∀ step ∈ way, Inline step) →
      (setting config).renderChain (some root) session = .ok code last →
      ∃ fragment left, (setting config).renderChain (some target) found = .ok fragment left ∧
        Inset (WholeTemplates config) config.indentUnit.toList
          (depth way) fragment.toList code.toList) ∧
    (∀ (config : Config) {place : Shape} {node target : Node}
      {link : Link} {session found last : Session}
      {way : List Step} {emission : Emission},
      '\n' ∉ config.indentUnit.toList → node.kind ∈ definitionKinds →
      link.isSlot = true →
      Reaches (setting config) place node session (⟨node, link⟩ :: way) target found →
      (∀ step ∈ way, Inline step) →
      (node.offer (setting config)).emission session = .ok emission last →
      emission = .nothing ∧ ∃ name text fragment left,
        last.definitions.get? (.procedure name) = some text ∧
        (setting config).renderChain (some target) found = .ok fragment left ∧
        Inset (WholeTemplates config) config.indentUnit.toList
          (depth way + 1) fragment.toList text.toList) ∧
    ∀ (description : Description) (config : Config) {place : Shape} {root target : Node}
      {session found last : Session} {way : List Step} {code : String},
      let setting : Setting := ⟨description.target, config⟩
      '\n' ∉ config.indentUnit.toList → Reaches setting place root session way target found →
      (∀ step ∈ way, step.link = .next ∨ step.link.isSlot = true ∧ ∃ rule : Rule,
        description.catalog.find? step.node.kind = some rule.emitter ∧ rule.shape = .statement) →
      setting.renderChain (some root) session = .ok code last →
      ∃ fragment left, setting.renderChain (some target) found = .ok fragment left ∧
        hangLines (units (depth way) config.indentUnit.toList) fragment.toList <:+:
          code.toList := by
  refine ⟨?_, ?_, ?_, ?_, ?_, ?_, ?_⟩
  · intro mark text more h
    rw [Text.prefixLines, String.toList_append, h.prefixLines_append, String.ofList_append]
    rfl
  · intro other mark text h
    rw [Text.prefixLines, Text.prefixLines, Text.prefixLines, String.toList_ofList,
      prefixLines_prefixLines h, String.toList_append]
  · intro mark text
    have hlast : (Text.prefixLines mark text).toList.getLast? = text.toList.getLast? := by
      rw [Text.prefixLines, String.toList_ofList, getLast?_prefixLines]
    refine ⟨?_, by rw [hlast]⟩
    rw [← String.toList_eq_nil_iff, ← String.toList_eq_nil_iff, ← List.getLast?_eq_none_iff, hlast,
      List.getLast?_eq_none_iff]
  · intro mark text h
    rw [Text.prefixLines, String.toList_ofList, unprefixLines_prefixLines h]
  · intro config place root target session found last way code hunit hreaches hway hrun
    exact hreaches.inset hunit WholeTemplates.lineEnding
      (fun step hstep => (hway step hstep).carries) hrun
  · intro config place node target link session found last way emission hunit hkind hslot
      hreaches hway hrun
    exact definition_inset hunit hkind hslot hreaches hway hrun
  · intro description config place root target session found last way code setting hunit
      hreaches hway hrun
    have hcarries : ∀ step ∈ way, setting.Carries False step := by
      intro step hstep
      rcases hway step hstep with hnext | ⟨hslot, rule, hfind, hshape⟩
      · exact .inl hnext
      · exact Rule.carries description config hslot hfind hshape
    obtain ⟨fragment, left, hfragment, hinset⟩ := hreaches.inset hunit False.elim hcarries hrun
    exact ⟨fragment, left, hfragment, hinset.1⟩

/-- Remarks with blank lines, a print in two loops, and the same in a procedure; then a described
node in two others whose slots begin in the middle of a line. -/
theorem print_in_loops_is_indented_as_deep_as_it_is_nested :
    let config : Config := { indentUnit := "\t", beforeStatement := some "enter(%1);\n" }
    let print : Node := { id := "n3", kind := "text_print" }
    let inner : Node := { id := "n2", kind := "controls_whileUntil", statements := [("DO", print)] }
    let outer : Node := { id := "n1", kind := "controls_whileUntil", statements := [("DO", inner)] }
    let define : Node :=
      { kind := "procedures_defreturn", fields := [("NAME", .text "f")],
        statements := [("STACK", inner)] }
    let session := (setting config).session
    let description : Description :=
      { rules := [("note", { shape := .statement, parts := [.literal "a\nb\n"] }),
      ("block", { shape := .statement, parts := [.literal "do ", .statements "DO"] })] }
    let note : Node := { kind := "note" }
    let block : Node := { kind := "block", statements := [("DO", note)] }
    let blocks : Node := { kind := "block", statements := [("DO", block)] }
    Text.prefixLines "// " ("a\n" ++ "\n// b") =
      Text.prefixLines "// " "a\n" ++ Text.prefixLines "// " "\n// b" ∧
    Text.prefixLines "\t" (Text.prefixLines "// " "a\n\n// b") =
      Text.prefixLines ("\t" ++ "// ") "a\n\n// b" ∧
    unprefixLines "// ".toList (Text.prefixLines "// " "// a\n\nb").toList =
      some "// a\n\nb".toList ∧
    (∃ code last fragment left, (setting config).renderChain (some outer) session = .ok code last ∧
      (setting config).renderChain (some print)
      { session with loops := ["n2", "n1"] } = .ok fragment left ∧
      Indented "\t".toList 2 fragment.toList code.toList) ∧
    (∃ last name text found fragment left,
      (define.offer (setting config)).emission session = .ok .nothing last ∧
      last.definitions.get? (.procedure name) = some text ∧
      (setting config).renderChain (some print) found = .ok fragment left ∧
      Indented "\t".toList 2 fragment.toList text.toList) ∧
    ∃ code last fragment left,
      Setting.renderChain ⟨description.target, {}⟩ (some blocks) {} = .ok code last ∧
      Setting.renderChain ⟨description.target, {}⟩ (some note) {} = .ok fragment left ∧
      hangLines (units 2 "    ".toList) fragment.toList <:+: code.toList := by
  intro config print inner outer define session description note block blocks
  have hprint : catalog.find? "text_print" = some ⟨Zig.print, false⟩ :=
    (find?_catalog (by decide)).trans rfl
  have hloop : (setting config).target.catalog.find? "controls_whileUntil" =
      some ⟨whileLoop, false⟩ := by
    rw [catalog_setting]
    exact (find?_catalog (by decide)).trans rfl
  have htemplates : WholeTemplates config := by
    refine ⟨?_, ?_, ?_⟩
    · intro template htemplate
      obtain rfl := Option.mem_some_iff.mp htemplate
      exact .inr ⟨"enter(%1);".toList, rfl⟩
    · exact fun template htemplate => absurd htemplate (Option.not_mem_none _)
    · exact fun template htemplate => absurd htemplate (Option.not_mem_none _)
  have hbody : ∀ session, ∃ code next,
      (setting config).renderChain (some print) session = .ok code next := by
    intro session
    obtain ⟨code, next, hcode⟩ : ∃ code next,
        (print.offer (setting config)).emission session = .ok (.statement code) next := by
      rw [@emission_of_kind config print "text_print" _ rfl hprint]
      exact ⟨_, _, rfl⟩
    obtain ⟨text, htext⟩ := chain_of_statement hcode rfl rfl
    exact ⟨text, next, htext⟩
  have hinner : ∀ session, ∃ code next,
      (setting config).renderChain (some inner) session = .ok code next := by
    intro session
    obtain ⟨body, next, hrun⟩ := hbody { session with loops := inner.id :: session.loops }
    exact chain_of_whileLoop rfl rfl rfl rfl rfl rfl hrun
  obtain ⟨whole, twice, -, back, code, definitions, described⟩ := indentation_composes
  refine ⟨whole _ _ _ (.inr ⟨['a'], rfl⟩), twice _ _ _ (by decide),
    back _ _ (by decide), ?_, ?_, ?_⟩
  · obtain ⟨inside, next, hinside⟩ := hinner { session with loops := outer.id :: session.loops }
    obtain ⟨whole, last, hwhole⟩ :=
      @chain_of_whileLoop config outer inner session _ _ rfl rfl rfl rfl rfl rfl hinside
    have hreaches : Reaches (setting config) .statement outer session
        [⟨outer, .loop "DO"⟩, ⟨inner, .loop "DO"⟩] print { session with loops := ["n2", "n1"] } :=
      .slot .statement rfl hloop (.later rfl (.now _ rfl)) rfl
        (.slot .statement rfl hloop (.later rfl (.now _ rfl)) rfl (.here .statement _ rfl))
    have hway : ∀ step ∈ ([⟨outer, .loop "DO"⟩, ⟨inner, .loop "DO"⟩] : List Step), Inline step :=
      List.forall_mem_cons.mpr ⟨.inr ⟨rfl, by decide⟩,
        List.forall_mem_singleton.mpr (.inr ⟨rfl, by decide⟩)⟩
    obtain ⟨fragment, left, hfragment, hinset⟩ := code config (by decide) hreaches hway hwhole
    exact ⟨whole, last, fragment, left, hwhole, hfragment, hinset.2 htemplates⟩
  · have hfind : catalog.find? "procedures_defreturn" = some ⟨defineProcedure, true⟩ :=
      find?_definition (by decide)
    have hname : (setting config).ask define (option define "NAME") session = .ok "f" session := rfl
    obtain ⟨word, named, hword⟩ : ∃ word named,
        (setting config).ask define (procedureName "f") session = .ok word named := ⟨_, _, rfl⟩
    obtain ⟨inside, next, hinside⟩ := hinner named
    have hbranch : (setting config).ask define (askStatements "STACK") named =
        .ok (Text.prefixLines config.indentUnit inside) next := Synth.bind_of_ok hinside _
    obtain ⟨emission, last, hemission⟩ : ∃ emission last,
        (define.offer (setting config)).emission session = .ok emission last := by
      rw [@emission_of_kind config define "procedures_defreturn" _ rfl hfind]
      show ∃ emission last, (setting config).ask define (defineProcedure config define) session = _
      unfold defineProcedure
      rw [Setting.ask_bind, Synth.bind_of_ok hname, Setting.ask_bind, Synth.bind_of_ok hword,
        Setting.ask_bind, Synth.bind_of_ok hbranch]
      exact ⟨_, _, rfl⟩
    have hdefine := hfind
    rw [← catalog_setting config] at hdefine
    obtain ⟨found, hreaches⟩ : ∃ found, Reaches (setting config) .statement define session
        [⟨define, .branch "STACK"⟩, ⟨inner, .loop "DO"⟩] print found := by
      exact ⟨_, .slot .statement rfl hdefine (.later rfl (.now _ rfl)) rfl
        (.slot .statement rfl hloop (.later rfl (.now _ rfl)) rfl (.here .statement _ rfl))⟩
    obtain ⟨rfl, name, text, fragment, left, htext, hfragment, hinset⟩ :=
      definitions config (by decide) (by decide) rfl hreaches
        (List.forall_mem_singleton.mpr (.inr ⟨rfl, by decide⟩)) hemission
    exact ⟨last, name, text, found, fragment, left, hemission, htext, hfragment,
      hinset.2 htemplates⟩
  · have hblock : description.catalog.find? "block" = some
          (Rule.emitter { shape := .statement, parts := [.literal "do ", .statements "DO"] }) := rfl
    have hreaches : Reaches ⟨description.target, {}⟩ .statement blocks {}
        [⟨blocks, .branch "DO"⟩, ⟨block, .branch "DO"⟩] note {} :=
      .slot .statement rfl hblock (.now _ rfl) rfl
        (.slot .statement rfl hblock (.now _ rfl) rfl (.here .statement _ rfl))
    have hway : ∀ step ∈ ([⟨blocks, .branch "DO"⟩, ⟨block, .branch "DO"⟩] : List Step),
        step.link = .next ∨
        step.link.isSlot = true ∧ ∃ rule : Rule,
          description.catalog.find? step.node.kind = some rule.emitter ∧
          rule.shape = .statement :=
      List.forall_mem_cons.mpr ⟨.inr ⟨rfl, _, hblock, rfl⟩,
        List.forall_mem_singleton.mpr (.inr ⟨rfl, _, hblock, rfl⟩)⟩
    obtain ⟨text, last, hrun⟩ : ∃ text last,
        Setting.renderChain ⟨description.target, {}⟩ (some blocks) {} = .ok text last := ⟨_, _, rfl⟩
    obtain ⟨fragment, left, hfragment, hinside⟩ :=
      described description {} (by decide) hreaches hway hrun
    exact ⟨text, last, fragment, left, hrun, hfragment, hinside⟩

end BlockSynth.Zig
