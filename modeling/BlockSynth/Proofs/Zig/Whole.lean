import BlockSynth.Proofs.Text.Whole
import BlockSynth.Proofs.Zig.Comment

/-! # Statements are whole lines

Fragments of code are written one behind the other, and nothing is put between them. No two of them
are joined into one line, because every statement ends its last line whatever it was rendered from,
and so does every template of the configuration that is injected around it.
-/
namespace BlockSynth.Zig

open Chars Script

/-- The templates that are there are empty or end their last line. -/
structure WholeTemplates (config : Config) : Prop where
  before : ∀ template ∈ config.beforeStatement, Whole template.toList
  after : ∀ template ∈ config.afterStatement, Whole template.toList
  trap : ∀ template ∈ config.loopTrap, Whole template.toList

variable {config : Config}

theorem whole_append {code more : String} (h : Whole code.toList) (hmore : Whole more.toList) :
    Whole (code ++ more).toList := by
  rw [String.toList_append]
  exact h.append hmore

theorem whole_prefixLines (mark : String) {code : String} (h : Whole code.toList) :
    Whole (Text.prefixLines mark code).toList := by
  rw [Text.prefixLines, String.toList_ofList]
  exact h.prefixLines mark.toList

theorem whole_join {texts : List String} (h : ∀ text ∈ texts, Whole text.toList) :
    Whole (String.join texts).toList := by
  induction texts with
  | nil => exact whole_nil
  | cons text rest ih =>
    rw [List.forall_mem_cons] at h
    rw [String.join_cons]
    exact whole_append h.1 (ih h.2)

theorem Finished.whole {code : String} (h : Finished code) : Whole code.toList := by
  obtain ⟨front, c, -, hcode⟩ := h
  exact .inr ⟨front ++ [c], by rw [hcode, List.append_assoc]; rfl⟩

/-! ### Injected text and comments -/

theorem whole_injected {template : Option String}
    (h : ∀ text ∈ template, Whole text.toList) (id : String) :
    Whole (Config.injected quotes template id).toList := by
  cases template with
  | none => exact whole_nil
  | some text =>
    show Whole (Text.replace "%1" (quotes.quote id) text).toList
    rw [Text.replace, String.toList_ofList]
    exact (h text rfl).replace (by decide) (by decide) _

theorem WholeTemplates.trapLoop (h : WholeTemplates config)
    {body : String} (hbody : Whole body.toList) (id : String) :
    Whole ((setting config).trapLoop body id).toList := by
  have hbefore := whole_prefixLines config.indentUnit (whole_injected h.before id)
  have hafter := whole_prefixLines config.indentUnit (whole_injected h.after id)
  have htrap := whole_prefixLines config.indentUnit (whole_injected h.trap id)
  exact whole_append (whole_append (whole_append hafter htrap) hbody) hbefore

theorem whole_comments (mark : String) (node : Node) : Whole (node.comments mark).toList := by
  have hlines : ∀ remarks : List String, Whole (String.join (remarks.map (· ++ "\n"))).toList := by
    intro remarks
    refine whole_join fun line hline => ?_
    obtain ⟨remark, -, rfl⟩ := List.mem_map.mp hline
    rw [String.toList_append]
    exact whole_newline _
  unfold Node.comments
  refine whole_append (whole_prefixLines mark (hlines _)) (whole_join fun text htext => ?_)
  obtain ⟨slot, -, rfl⟩ := List.mem_map.mp htext
  exact whole_prefixLines mark (hlines _)

/-! ### Emitters -/

/-- The contract of code that is put together line by line. -/
def lining : Contract where
  value _ _ := True
  lines _ code := Whole code.toList
  body _ code := Whole code.toList
  loop _ := True
  word _ := True
  helper _ := True
  require _ := True
  define _ := True
  session _ := True
  emission := Ended
  chain code := Whole code.toList

/-- Whatever the emitter is answered, a statement of it ends its last line. -/
def Ends (config : Config) (emitter : Emitter) : Prop :=
  ∀ node, (emitter.script config node).Meets lining.toTerms Ended

theorem Still.ends {emitter : Emitter} (h : Still config emitter) : Ends config emitter :=
  fun node => (h node).meets (fun _ => trivial) fun _ => trivial

/-- How a statement ends does not depend on what was asked for before. -/
theorem meets_after {α β : Type} {goal : β → Prop} (script : Script α)
    {next : α → Script β} (h : ∀ answer, (next answer).Meets lining.toTerms goal) :
    (script >>= next).Meets lining.toTerms goal := by
  have hany : script.Meets lining.toTerms fun _ => True :=
    script.meets_of_forall (fun _ => trivial) (fun _ => trivial) (fun _ => trivial) fun _ => trivial
  exact hany.bind fun answer _ => h answer

theorem finished_block (head body : String) : Finished (braces head body ++ "\n") := by
  simpa using finished_braces "" head body

theorem ends_repeatLoop : Ends config ⟨repeatLoop, false⟩ := by
  intro node
  refine meets_after _ fun times => meets_after _ fun body => meets_after _ fun counter => ?_
  refine meets_after _ fun bound => ?_
  exact finished_braces _ _ body

theorem ends_whileLoop : Ends config ⟨whileLoop, false⟩ := by
  intro node
  refine meets_after _ fun negated => meets_after _ fun condition => meets_after _ fun body => ?_
  exact finished_block _ body

theorem ends_countLoop : Ends config ⟨countLoop, false⟩ := by
  intro node
  refine meets_after _ fun name => meets_after _ fun start => meets_after _ fun finish => ?_
  refine meets_after _ fun step => meets_after _ fun body => ?_
  split
  · exact finished_braces _ _ body
  · refine meets_after _ fun first => meets_after _ fun last => meets_after _ fun increment => ?_
    exact finished_braces _ _ body

theorem ends_eachLoop : Ends config ⟨eachLoop, false⟩ := by
  intro node
  refine meets_after _ fun name => meets_after _ fun items => meets_after _ fun body => ?_
  refine meets_after _ fun capture => ?_
  exact finished_block _ _

theorem ends_iterations : ∀ entry ∈ iterations, Ends config entry.2 := by
  simp [iterations, ends_repeatLoop, ends_whileLoop, ends_countLoop, ends_eachLoop, still_jump.ends]

theorem ends_every : Ends config ⟨every, false⟩ := by
  intro node
  refine meets_after _ fun body => ?_
  exact finished_braces _ _ _

theorem ends_defineProcedure : Ends config ⟨defineProcedure, true⟩ := by
  intro node
  refine meets_after _ fun field => meets_after _ fun name => meets_after _ fun branch => ?_
  refine meets_after _ fun result => meets_after _ fun words => ?_
  exact ⟨trivial, trivial⟩

/-! ### Conditionals -/

/-- The code ends with a closing brace. -/
def Braced (code : String) : Prop :=
  ∃ front, code.toList = front ++ ['\x7d']

theorem Braced.append {code : String} (h : Braced code) (lead : String) :
    Braced (lead ++ code) := by
  obtain ⟨front, hcode⟩ := h
  exact ⟨lead.toList ++ front, by rw [String.toList_append, hcode, List.append_assoc]⟩

theorem braced_braces (head body : String) : Braced (braces head body) :=
  ⟨(head ++ " \x7b\n" ++ body).toList, by
    show (head ++ " \x7b\n" ++ body ++ "\x7d").toList = _
    rw [String.toList_append]
    rfl⟩

theorem Braced.finished {code : String} (h : Braced code) : Finished (code ++ "\n") := by
  obtain ⟨front, hcode⟩ := h
  refine ⟨front, '\x7d', by decide, ?_⟩
  rw [String.toList_append, hcode, List.append_assoc]
  rfl

theorem braced_join (between : String) {arms : List String}
    (hne : arms ≠ []) (h : ∀ arm ∈ arms, Braced arm) :
    Braced (Text.join between arms) := by
  induction arms with
  | nil => exact absurd rfl hne
  | cons arm rest ih =>
    rw [List.forall_mem_cons] at h
    cases rest with
    | nil => exact h.1
    | cons next more => exact (ih (List.cons_ne_nil _ _) h.2).append _

theorem meets_conditionalArms (lead : String) (numbers : List Nat) :
    (conditionalArms lead numbers).Meets lining.toTerms
      fun arms => arms.length = numbers.length ∧ ∀ arm ∈ arms, Braced arm := by
  induction numbers with
  | nil => exact ⟨rfl, List.forall_mem_nil _⟩
  | cons n rest ih =>
    refine meets_after _ fun condition => meets_after _ fun branch => ?_
    refine ih.bind fun arms harms => ⟨congrArg (· + 1) harms.1, ?_⟩
    exact List.forall_mem_cons.mpr ⟨braced_braces _ _, harms.2⟩

theorem ends_conditional : Ends config ⟨conditional, true⟩ := by
  intro node
  refine (meets_conditionalArms _ _).bind fun arms harms => ?_
  have hne : arms ≠ [] := by
    rintro rfl
    simp at harms
  have hjoined := (braced_join " else " hne harms.2).append (config.before quotes node.id)
  split
  · refine meets_after _ fun branch => ?_
    exact (((braced_braces "else" _).append " ").append _).finished
  · have hcode : Finished
        (config.before quotes node.id ++ Text.join " else " arms ++ "" ++ "\n") := by
      rw [String.append_empty]
      exact hjoined.finished
    exact hcode

/-! ### The catalog -/

theorem ends_catalog : catalog.All (Ends config) := by
  have hempty : Catalog.All (Ends config) {} := List.forall_mem_nil _
  have hstill : ∀ {entries : List (String × Emitter)}, (∀ entry ∈ entries, Still config entry.2) →
      ∀ entry ∈ entries, Ends config entry.2 :=
    fun h entry hentry => (h entry hentry).ends
  have hchoices : ∀ entry ∈ choices, Ends config entry.2 :=
    List.forall_mem_cons.mpr ⟨ends_conditional, hstill still_choices⟩
  have hroutines : ∀ entry ∈ routines, Ends config entry.2 :=
    List.forall_mem_cons.mpr ⟨ends_defineProcedure, hstill still_routines⟩
  have hdevices : ∀ entry ∈ devices, Ends config entry.2 :=
    List.forall_mem_cons.mpr ⟨ends_every, hstill still_devices⟩
  refine (hempty.registerAll ?_).withAliases aliases
  simp only [emitters, List.forall_mem_append]
  exact ⟨⟨⟨⟨⟨⟨⟨⟨⟨⟨⟨hchoices, ends_iterations⟩, hstill still_arithmetic⟩, hstill still_statistics⟩,
    hstill still_wordings⟩, hstill still_positions⟩, hstill still_slices⟩, hstill still_sequences⟩,
    hstill still_palette⟩, hstill still_bindings⟩, hroutines⟩, hdevices⟩

theorem lining_upheld (h : WholeTemplates config) : lining.Upheld (setting config) where
  resolve _ _ _ _ := ⟨trivial, trivial⟩
  fresh _ _ _ := ⟨trivial, trivial⟩
  provide _ _ _ _ _ := ⟨trivial, trivial⟩
  require _ _ _ _ _ := trivial
  define _ _ _ _ _ := trivial
  loops _ _ _ := trivial
  wrap _ _ _ _ _ := trivial
  statement emission node text he htext := by
    cases emission with
    | value code rank => simp [Emission.asStatement] at htext
    | statement code =>
      obtain rfl := Except.ok.inj htext
      have hcode : Whole code.toList := Finished.whole he
      refine whole_append (whole_comments commentMark node) ?_
      split
      · exact hcode
      · exact whole_append (whole_append (whole_injected h.before node.id) hcode)
          (whole_injected h.after node.id)
    | nothing =>
      obtain rfl := Except.ok.inj htext
      exact whole_nil
  naked node code _ _ _ := by
    have hnaked : Finished s!"_ = {code};\n" := by simp
    exact whole_append (whole_append (whole_append (whole_comments commentMark node)
      (whole_injected h.before node.id)) hnaked.whole) (whole_injected h.after node.id)
  chain_nil := whole_nil
  chain_append _ _ hcode hmore := whole_append hcode hmore
  lines _ _ hcode := whole_prefixLines config.indentUnit hcode
  loopBody _ _ id hcode := h.trapLoop (whole_prefixLines config.indentUnit hcode) id
  loop _ := trivial
  emitter _ _ hfind node := by
    rw [catalog_setting] at hfind
    exact ends_catalog.find? hfind node

/-! ### Programs -/

theorem whole_join_newline {codes : List String} (h : ∀ code ∈ codes, Whole code.toList) :
    Whole (Text.join "\n" codes).toList := by
  induction codes with
  | nil => exact whole_nil
  | cons code rest ih =>
    rw [List.forall_mem_cons] at h
    cases rest with
    | nil => exact h.1
    | cons next more => exact whole_append (whole_append h.1 (whole_newline [])) (ih h.2)

/-- The main function comes last, and its braces stand on lines of their own. -/
theorem tidy_assemble (imports others : List String) {codes : List String}
    (h : ∀ code ∈ codes, Whole code.toList) :
    ∃ front body, Whole front ∧ Whole body ∧
      (Text.tidy (assemble config imports others (Text.join "\n" codes))).toList =
        front ++ ("pub fn main() !void \x7b".toList ++ '\n' :: body) ++ ['\x7d', '\n'] := by
  have hbody := whole_prefixLines config.indentUnit (whole_join_newline h)
  have hheader : Whole
      (if header imports others = "" then "" else header imports others ++ "\n\n\n").toList := by
    split
    · exact whole_nil
    · rw [String.toList_append]
      exact .inr ⟨(header imports others).toList ++ ['\n', '\n'], by rw [List.append_assoc]; rfl⟩
  have hhead : trimEnd "pub fn main() !void \x7b".toList = "pub fn main() !void \x7b".toList := by
    decide
  have hbrace : trimEnd ['\x7d'] = ['\x7d'] := by decide
  obtain ⟨front, body, hfront, hinside, htidy⟩ := hheader.tidy_block hbody
    (show '\n' ∉ "pub fn main() !void \x7b".toList by decide) (show '\n' ∉ ['\x7d'] by decide)
    (by decide) (by decide)
  refine ⟨front, body, hfront, hinside, ?_⟩
  rw [hhead, hbrace] at htidy
  rw [Text.tidy, String.toList_ofList, assemble_eq, preamble]
  simpa using htidy

/-- Where every template is empty or ends its last line, so do chains, the codes of statement slots
and of loop bodies, and every statement is one or more lines. A program ends with the closing brace
of its main function, on a line of its own. -/
theorem statements_are_whole_lines (h : WholeTemplates config) :
    (∀ first session code next,
      (setting config).renderChain first session = .ok code next → Whole code.toList) ∧
    (∀ node slot session code next,
      (setting config).ask node (.askStatements slot) session = .ok code next → Whole code.toList) ∧
    (∀ node slot session code next,
      (setting config).ask node (.askLoopBody slot) session = .ok code next → Whole code.toList) ∧
    (∀ (node : Node) session code next,
      (node.offer (setting config)).emission session = .ok (.statement code) next →
      code ≠ "" ∧ Whole code.toList) ∧
    ∀ workspace program, (setting config).generate workspace = .ok program →
      ∃ front body, Whole front ∧ Whole body ∧ program.toList =
        front ++ ("pub fn main() !void \x7b".toList ++ '\n' :: body) ++ ['\x7d', '\n'] := by
  have hupheld := lining_upheld h
  refine ⟨?_, ?_, ?_, ?_, ?_⟩
  · intro first session code next hrun
    exact ((hupheld.chainOffer_keeps first).of_ok trivial hrun).1
  · intro node slot session code next hrun
    exact ((hupheld.ask node (meets_askStatements slot)).of_ok trivial hrun).1
  · intro node slot session code next hrun
    exact ((hupheld.ask node (meets_askLoopBody slot)).of_ok trivial hrun).1
  · intro node session code next hrun
    have hended : Finished code := ((hupheld.offer node).emission.of_ok trivial hrun).1
    exact ⟨hended.ne_empty, hended.whole⟩
  · intro workspace program hgenerate
    obtain ⟨codes, session, hrun, rfl⟩ := exists_roots_of_generate hgenerate
    have hcodes := ((hupheld.renderRoots workspace.roots).of_ok trivial hrun).1
    exact tidy_assemble _ _ hcodes

/-- A comment with a brace in it, a template that ends its line and one that is empty, in a chain,
in a slot, in a loop and in a program. -/
theorem commented_print_is_whole_lines :
    let config : Config := { beforeStatement := some "enter(%1);\n", afterStatement := some "" }
    let shout : Node := { kind := "text_print", comment := some "// \x7d" }
    let twice : Node := { kind := "controls_repeat_ext", statements := [("DO", shout)] }
    let session := (setting config).session
    (∃ code next,
      (setting config).renderChain (some shout) session = .ok code next ∧ Whole code.toList) ∧
    (∃ code next, (setting config).ask twice (.askStatements "DO") session = .ok code next ∧
      Whole code.toList) ∧
    (∃ code next,
      (setting config).ask twice (.askLoopBody "DO") session = .ok code next ∧ Whole code.toList) ∧
    (∃ code next, (shout.offer (setting config)).emission session = .ok (.statement code) next ∧
      code ≠ "" ∧ Whole code.toList) ∧
    ∃ program, (setting config).generate ⟨[], [shout]⟩ = .ok program ∧
      ∃ front body, Whole front ∧ Whole body ∧ program.toList =
        front ++ ("pub fn main() !void \x7b".toList ++ '\n' :: body) ++ ['\x7d', '\n'] := by
  intro config shout twice session
  have htemplates : WholeTemplates config := by
    refine ⟨?_, ?_, ?_⟩
    · intro template htemplate
      obtain rfl := Option.mem_some_iff.mp htemplate
      exact .inr ⟨"enter(%1);".toList, rfl⟩
    · intro template htemplate
      obtain rfl := Option.mem_some_iff.mp htemplate
      exact whole_nil
    · intro template htemplate
      exact absurd htemplate (Option.not_mem_none _)
  have hemission : ∀ session, ∃ code next,
      (shout.offer (setting config)).emission session = .ok (.statement code) next := by
    intro session
    have hfind : catalog.find? "text_print" = some ⟨print, false⟩ :=
      (find?_catalog (by decide)).trans rfl
    rw [@emission_of_kind config shout "text_print" _ rfl hfind]
    exact ⟨_, _, rfl⟩
  have hchain : ∀ session, ∃ code next,
      (setting config).renderChain (some shout) session = .ok code next := by
    intro session
    obtain ⟨code, next, hcode⟩ := hemission session
    obtain ⟨text, htext⟩ := chain_of_statement hcode rfl rfl
    exact ⟨text, next, htext⟩
  have hgenerate : ∃ program, (setting config).generate ⟨[], [shout]⟩ = .ok program := by
    obtain ⟨code, next, hcode⟩ := hemission ((setting config).openProgram ⟨[], [shout]⟩ session)
    have hrest : (setting config).renderRoots [] next = .ok [] next := rfl
    have hroots := renderRoots_cons (renderRoot_of_statement hcode rfl rfl rfl) hrest
    exact ⟨_, generate_of_roots hroots⟩
  obtain ⟨chains, slots, bodies, statements, programs⟩ :=
    @statements_are_whole_lines config htemplates
  obtain ⟨code, next, hcode⟩ := hemission session
  obtain ⟨text, after, htext⟩ := hchain session
  obtain ⟨inside, left, hinside⟩ := hchain { session with loops := twice.id :: session.loops }
  obtain ⟨program, hprogram⟩ := hgenerate
  have hslot : (setting config).ask twice (.askStatements "DO") session =
      .ok (Text.prefixLines config.indentUnit text) after := Synth.bind_of_ok htext _
  have hbody : (setting config).ask twice (.askLoopBody "DO") session =
      .ok ((setting config).trapLoop (Text.prefixLines config.indentUnit inside) twice.id) _ :=
    Synth.bind_of_ok (Synth.inLoop_of_ok hinside) _
  exact ⟨⟨text, after, htext, chains _ _ _ _ htext⟩, ⟨_, _, hslot, slots _ _ _ _ _ hslot⟩,
    ⟨_, _, hbody, bodies _ _ _ _ _ hbody⟩, ⟨code, next, hcode, statements _ _ _ _ hcode⟩,
    ⟨program, hprogram, programs _ _ hprogram⟩⟩

end BlockSynth.Zig
