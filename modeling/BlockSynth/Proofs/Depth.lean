import BlockSynth.Proofs.Dispatch
import BlockSynth.Proofs.Nesting
import BlockSynth.Proofs.Pace
import BlockSynth.Proofs.Text.Indent

/-! # Indentation is the depth of statement slots

An emitter that puts the code of a statement slot into its statement does not change
it, and indents it by one unit before. So along a way of such emitters the code of a
node that is reached stands in that of the node from which it is reached, and the
statement slots on the way are the units that its lines are indented by.
-/
namespace BlockSynth

/-! ### Texts in texts -/

namespace Text

variable {ended : Prop} {code text : String}

/-- The code stands in the text, and begins a line where lines are ended. -/
def Houses (ended : Prop) (code text : String) : Prop :=
  ∃ front back, text = front ++ code ++ back ∧ (ended → Chars.Whole front.toList)

theorem houses_self (ended : Prop) (code : String) : Houses ended code code :=
  ⟨"", "", by simp, fun _ => Chars.whole_nil⟩

theorem Houses.lead (h : Houses ended code text)
    {lead : String} (hlead : ended → Chars.Whole lead.toList) :
    Houses ended code (lead ++ text) := by
  obtain ⟨front, back, rfl, hfront⟩ := h
  refine ⟨lead ++ front, back, by simp only [String.append_assoc], fun hended => ?_⟩
  rw [String.toList_append]
  exact (hlead hended).append (hfront hended)

theorem Houses.tail (h : Houses ended code text) (tail : String) :
    Houses ended code (text ++ tail) := by
  obtain ⟨front, back, rfl, hfront⟩ := h
  exact ⟨front, back ++ tail, by simp only [String.append_assoc], hfront⟩

theorem Houses.trans {more : String} (h : Houses ended code text) (hmore : Houses ended text more) :
    Houses ended code more := by
  obtain ⟨front, back, rfl, hfront⟩ := hmore
  exact (h.lead hfront).tail back

/-- The text houses the code behind a line break, so whatever is written in front of it. -/
def Embeds (ended : Prop) (code text : String) : Prop :=
  ∃ head body tail, text = head ++ "\n" ++ body ++ tail ∧ Houses ended code body

theorem Embeds.lead (h : Embeds ended code text) (lead : String) :
    Embeds ended code (lead ++ text) := by
  obtain ⟨head, body, tail, rfl, hbody⟩ := h
  exact ⟨lead ++ head, body, tail, by simp only [String.append_assoc], hbody⟩

theorem Embeds.tail (h : Embeds ended code text) (tail : String) :
    Embeds ended code (text ++ tail) := by
  obtain ⟨head, body, behind, rfl, hbody⟩ := h
  exact ⟨head, body, behind ++ tail, by simp only [String.append_assoc], hbody⟩

theorem Embeds.houses (h : Embeds ended code text) : Houses ended code text := by
  obtain ⟨head, body, tail, rfl, hbody⟩ := h
  have hhead : Chars.Whole (head ++ "\n").toList := by
    rw [String.toList_append]
    exact Chars.whole_newline _
  exact (hbody.lead fun _ => hhead).tail tail

theorem embeds_join (between : String) {texts : List String}
    (hmem : text ∈ texts) (h : Embeds ended code text) :
    Embeds ended code (Text.join between texts) := by
  induction texts with
  | nil => simp at hmem
  | cons first rest ih =>
    cases rest with
    | nil =>
      obtain rfl := List.mem_singleton.mp hmem
      exact h
    | cons next more =>
      rcases List.mem_cons.mp hmem with rfl | hrest
      · exact (h.tail between).tail _
      · exact (ih hrest).lead _

theorem Houses.inset (h : Houses ended code text) {unit fragment : List Char} {depth : Nat}
    (hinset : Chars.Inset ended unit depth fragment code.toList) :
    Chars.Inset ended unit depth fragment text.toList := by
  obtain ⟨front, back, rfl, hfront⟩ := h
  rw [String.toList_append, String.toList_append]
  exact hinset.around hfront back.toList

end Text

/-! ### Scripts -/

namespace Script

variable {α β : Type}

/-- Whatever a script is answered for a statement slot, it is then left with something
that fits the answer. -/
def Places (fits : String → Script α → Prop) : Script α → Prop
  | done _ => True
  | fail _ => True
  | value _ _ next => ∀ code, (next code).Places fits
  | statements _ next => ∀ code, fits code (next code) ∧ (next code).Places fits
  | loopBody _ next => ∀ code, fits code (next code) ∧ (next code).Places fits
  | enclosingLoop next => ∀ id, (next id).Places fits
  | resolve _ _ next => ∀ word, (next word).Places fits
  | fresh _ next => ∀ word, (next word).Places fits
  | helper _ _ next => ∀ word, (next word).Places fits
  | require _ _ next => next.Places fits
  | define _ _ next => next.Places fits

variable {fits : String → Script β → Prop}

theorem Places.bind {script : Script α} {next : α → Script β}
    (h : script.Places fun code rest => fits code (rest >>= next))
    (hnext : ∀ answer, (next answer).Places fits) :
    (script >>= next).Places fits := by
  show (script.bind next).Places fits
  induction script with
  | done answer => exact hnext answer
  | fail fault => exact trivial
  | value slot rank rest ih => exact fun code => ih code (h code)
  | statements slot rest ih => exact fun code => ⟨(h code).1, ih code (h code).2⟩
  | loopBody slot rest ih => exact fun code => ⟨(h code).1, ih code (h code).2⟩
  | enclosingLoop rest ih => exact fun id => ih id (h id)
  | resolve space name rest ih => exact fun word => ih word (h word)
  | fresh name rest ih => exact fun word => ih word (h word)
  | helper key template rest ih => exact fun word => ih word (h word)
  | require tag text rest ih => exact ih h
  | define name text rest ih => exact ih h

theorem Places.mono {fits fits' : String → Script α → Prop} {script : Script α}
    (h : script.Places fits) (himp : ∀ code rest, fits code rest → fits' code rest) :
    script.Places fits' := by
  induction script with
  | done answer => exact trivial
  | fail fault => exact trivial
  | value slot rank rest ih => exact fun code => ih code (h code)
  | statements slot rest ih => exact fun code => ⟨himp code _ (h code).1, ih code (h code).2⟩
  | loopBody slot rest ih => exact fun code => ⟨himp code _ (h code).1, ih code (h code).2⟩
  | enclosingLoop rest ih => exact fun id => ih id (h id)
  | resolve space name rest ih => exact fun word => ih word (h word)
  | fresh name rest ih => exact fun word => ih word (h word)
  | helper key template rest ih => exact fun word => ih word (h word)
  | require tag text rest ih => exact ih h
  | define name text rest ih => exact ih h

theorem Calm.places {goal : α → Prop} {fits : String → Script α → Prop}
    {script : Script α} (h : script.Calm goal) :
    script.Places fits := by
  induction script with
  | done answer => exact trivial
  | fail fault => exact trivial
  | value slot rank next ih => exact fun code => ih code (h code)
  | statements slot next ih => exact h.elim
  | loopBody slot next ih => exact h.elim
  | enclosingLoop next ih => exact fun id => ih id (h id)
  | resolve space name next ih => exact fun word => ih word (h word)
  | fresh name next ih => exact fun word => ih word (h word)
  | helper key template next ih => exact fun word => ih word (h word)
  | require tag text next ih => exact ih h
  | define name text next ih => exact h.elim

/-- What a script asks for after something calm it places as it would have without that. -/
theorem Calm.places_bind {script : Script α} {next : α → Script β} (h : script.Calm fun _ => True)
    (hnext : ∀ answer, (next answer).Places fits) : (script >>= next).Places fits :=
  h.places.bind hnext

theorem places_askStatements (slot : String) {next : String → Script β}
    (hfits : ∀ code, fits code (next code)) (hnext : ∀ code, (next code).Places fits) :
    (askStatements slot >>= next).Places fits :=
  fun code => ⟨hfits code, hnext code⟩

theorem places_askLoopBody (slot : String) {next : String → Script β}
    (hfits : ∀ code, fits code (next code)) (hnext : ∀ code, (next code).Places fits) :
    (askLoopBody slot >>= next).Places fits :=
  fun code => ⟨hfits code, hnext code⟩

theorem Places.first {fits : String → Script α → Prop}
    {script : Script α} (h : script.Places fits) :
    script.first.Meets .free (·.Places fits) := by
  cases script with
  | done answer => exact h
  | fail fault => exact h
  | value slot rank next => exact fun code _ => h code
  | statements slot next => exact fun code _ => (h code).2
  | loopBody slot next => exact fun code _ => (h code).2
  | enclosingLoop next => exact fun id _ => h id
  | resolve space name next => exact fun word _ => h word
  | fresh name next => exact fun word _ => h word
  | helper key template next => exact ⟨trivial, fun word _ => h word⟩
  | require tag text next => exact ⟨trivial, h⟩
  | define name text next => exact ⟨trivial, h⟩

end Script

/-! ### Statement slots -/

/-- The link leads into a statement slot. -/
def Link.isSlot : Link → Bool
  | .branch _ => true
  | .loop _ => true
  | _ => false

/-- How many statement slots a way goes into. -/
def depth (way : List Step) : Nat :=
  way.countP (·.link.isSlot)

theorem depth_cons_of_isSlot {step : Step} (h : step.link.isSlot = true) (way : List Step) :
    depth (step :: way) = depth way + 1 :=
  List.countP_cons_of_pos h

theorem depth_cons_of_not_isSlot {step : Step} (h : step.link.isSlot = false) (way : List Step) :
    depth (step :: way) = depth way :=
  List.countP_cons_of_neg (by simp [h])

variable {setting : Setting} {ended : Prop}

/-- What a script is answered for the slot of a step whose chain has the given code. -/
def Setting.slotText (setting : Setting) (step : Step) (code : String) : String :=
  let body := Text.prefixLines setting.config.indentUnit code
  match step.link with
  | .loop _ => setting.trapLoop body step.node.id
  | _ => body

/-- Comments and injected texts end their last lines, and so does whatever nodes and
chains are rendered to. -/
structure Setting.LineEnding (setting : Setting) : Prop where
  comments : ∀ node, Chars.Whole (setting.comments node).toList
  before : ∀ id, Chars.Whole (setting.before id).toList
  after : ∀ id, Chars.Whole (setting.after id).toList
  trap : ∀ id, Chars.Whole (setting.trap id).toList
  lines : ∀ node session code last,
    setting.lines node session = .ok code last → Chars.Whole code.toList
  chain : ∀ first session code last,
    chainOffer setting first session = .ok code last → Chars.Whole code.toList

theorem Setting.houses_slotText (hends : ended → setting.LineEnding) (step : Step) (code : String) :
    Text.Houses ended (Text.prefixLines setting.config.indentUnit code)
      (setting.slotText step code) := by
  have hindent : ∀ {text : String}, Chars.Whole text.toList →
      Chars.Whole (Text.prefixLines setting.config.indentUnit text).toList := by
    intro text htext
    rw [Text.prefixLines, String.toList_ofList]
    exact htext.prefixLines _
  unfold Setting.slotText
  split
  · have hbody := Text.houses_self ended (Text.prefixLines setting.config.indentUnit code)
    have htrapped := hbody.lead fun hended => hindent ((hends hended).trap step.node.id)
    have hinjected := htrapped.lead fun hended => hindent ((hends hended).after step.node.id)
    rw [← String.append_assoc] at hinjected
    exact hinjected.tail _
  · exact Text.houses_self ended _

/-! ### Emissions -/

/-- The emission is a statement whose text houses the code. -/
def Emission.Houses (ended : Prop) (code : String) (emission : Emission) : Prop :=
  ∃ text, emission = .statement text ∧ Text.Houses ended code text

theorem Emission.Houses.asStatement {emission : Emission} {code here : String} {node : Node}
    (h : emission.Houses ended code) (hends : ended → setting.LineEnding)
    (hhere : emission.asStatement setting node = .ok here) : Text.Houses ended code here := by
  obtain ⟨text, rfl, htext⟩ := h
  obtain rfl := Except.ok.inj hhere
  refine Text.Houses.lead ?_ fun hended => (hends hended).comments node
  split
  · exact htext
  · exact (htext.lead fun hended => (hends hended).before node.id).tail _

/-- What follows a node is not asked for by its script. -/
theorem Setting.Asks.ne_next {node : Node} {α : Type} {script : Script α} {link : Link}
    {session asked : Session} (h : setting.Asks node script session link asked) : link ≠ .next := by
  induction h with
  | @now script link session hlink =>
    rintro rfl
    cases script <;> simp [Script.link?] at hlink
  | later _ _ ih => exact ih

/-- A script that has asked for a statement slot has been answered with the lines of the chain in
it, and has gone on with what fits that answer. -/
theorem Setting.Asks.placed {node : Node} {α : Type} {script : Script α} {link : Link}
    {session asked last : Session} {answer : α} {fits : String → Script α → Prop}
    (h : setting.Asks node script session link asked) (hslot : link.isSlot = true)
    (hplaces : script.Places fits) (hrun : setting.ask node script session = .ok answer last) :
    ∃ code left rest later,
      chainOffer setting (node.behind link) (asked.along ⟨node, link⟩) = .ok code left ∧
      fits (setting.slotText ⟨node, link⟩ code) rest ∧
      setting.ask node rest later = .ok answer last := by
  induction h with
  | @now script link session hlink =>
    cases script with
    | statements slot next =>
      obtain rfl := Option.some.inj hlink
      unfold ask at hrun
      rw [Script.run, atSlot_chain] at hrun
      obtain ⟨code, left, hcode, hrest⟩ := Synth.ok_of_bind hrun
      exact ⟨code, left, _, left, hcode, (hplaces _).1, hrest⟩
    | loopBody slot next =>
      obtain rfl := Option.some.inj hlink
      unfold ask at hrun
      rw [Script.run, atSlot_chain] at hrun
      obtain ⟨code, between, hloop, hrest⟩ := Synth.ok_of_bind hrun
      obtain ⟨left, hcode, rfl⟩ : ∃ left, chainOffer setting (node.statements.lookup slot)
          { session with loops := node.id :: session.loops } = .ok code left ∧
          { left with loops := left.loops.tail } = between := by
        unfold Synth.inLoop at hloop
        split at hloop
        · rename_i inner left hinner
          obtain ⟨rfl, rfl⟩ := EStateM.Result.ok.inj hloop
          exact ⟨left, hinner, rfl⟩
        · simp at hloop
      exact ⟨code, left, _, _, hcode, (hplaces _).1, hrest⟩
    | value slot rank next =>
      obtain rfl := Option.some.inj hlink
      simp [Link.isSlot] at hslot
    | _ => simp [Script.link?] at hlink
  | @later script rest session after asked link hfirst _ ih =>
    have hrest : rest.Places fits :=
      (((Contract.free_upheld setting).ask node hplaces.first).of_ok trivial hfirst).1
    rw [Setting.ask_first, Synth.bind_of_ok hfirst] at hrun
    exact ih hslot hrest hrun

/-! ### Along a way -/

/-- A step that goes on in the chain, or into a statement slot whose code its node
puts into its statement. -/
def Setting.Carries (setting : Setting) (ended : Prop) (step : Step) : Prop :=
  step.link = .next ∨ step.link.isSlot = true ∧ ∀ emitter,
    setting.target.catalog.find? step.node.kind = some emitter →
    (emitter.script setting.config step.node).Places fun code rest =>
      rest.Meets .free (Emission.Houses ended code)

/-- The lines of a node house those of the chain in a slot of it, indented by one unit. -/
theorem Setting.Asks.houses_lines {node : Node} {emitter : Emitter}
    {link : Link} {session asked last : Session} {here : String}
    (h : setting.Asks node (emitter.script setting.config node) session link asked)
    (hends : ended → setting.LineEnding) (henabled : node.disabled = false)
    (hfind : setting.target.catalog.find? node.kind = some emitter) (hslot : link.isSlot = true)
    (hplaces : (emitter.script setting.config node).Places fun code rest =>
      rest.Meets .free (Emission.Houses ended code))
    (hlines : setting.lines node session = .ok here last) :
    ∃ code left, chainOffer setting (node.behind link) (asked.along ⟨node, link⟩) = .ok code left ∧
      Text.Houses ended (Text.prefixLines setting.config.indentUnit code) here := by
  unfold lines at hlines
  rw [henabled, if_neg Bool.false_ne_true, emission_of_find? hfind] at hlines
  obtain ⟨emission, after, hemission, hstatement⟩ := Synth.ok_of_bind hlines
  obtain ⟨code, left, rest, later, hcode, hfits, hrest⟩ := h.placed hslot hplaces hemission
  have hhouses : emission.Houses ended (setting.slotText ⟨node, link⟩ code) :=
    (((Contract.free_upheld setting).ask node hfits).of_ok trivial hrest).1
  have hhere : emission.asStatement setting node = .ok here := by
    cases hcase : emission.asStatement setting node with
    | ok text =>
      rw [hcase] at hstatement
      obtain ⟨rfl, -⟩ := EStateM.Result.ok.inj hstatement
      rfl
    | error fault =>
      rw [hcase] at hstatement
      cases hstatement
  exact ⟨code, left, hcode,
    (houses_slotText hends ⟨node, link⟩ code).trans (hhouses.asStatement hends hhere)⟩

/-- Where a way leads, the code of the chain stands in the code of the chain that the way begins in,
indented by a unit for each statement slot that it goes into. -/
theorem Reaches.inset {place : Shape} {node target : Node} {session found last : Session}
    {way : List Step} {code : String} (h : Reaches setting place node session way target found)
    (hunit : '\n' ∉ setting.config.indentUnit.toList)
    (hends : ended → setting.LineEnding) (hway : ∀ step ∈ way, setting.Carries ended step)
    (hrun : chainOffer setting (some node) session = .ok code last) :
    ∃ fragment left, chainOffer setting (some target) found = .ok fragment left ∧
      Chars.Inset ended setting.config.indentUnit.toList (depth way)
        fragment.toList code.toList := by
  -- Each slot on the way is one unit for all of what is reached behind it, so the
  -- induction goes from the node inwards.
  induction h generalizing code last with
  | here place session henabled => exact ⟨code, last, hrun, Chars.inset_zero _ _ _⟩
  | @slot node child target emitter link session asked found way place henabled hfind
    hasks hchild _ ih =>
    rw [List.forall_mem_cons] at hway
    rcases hway.1 with hnext | ⟨hslot, hplaces⟩
    · exact absurd hnext hasks.ne_next
    rw [Setting.chainOffer_lines] at hrun
    obtain ⟨here, after, hlines, hrest⟩ := Synth.ok_of_bind hrun
    obtain ⟨more, later, -, hwhole⟩ := Synth.ok_of_bind hrest
    obtain ⟨rfl, -⟩ := EStateM.Result.ok.inj hwhole
    obtain ⟨inner, left, hinner, hhouses⟩ :=
      hasks.houses_lines hends henabled hfind hslot (hplaces emitter hfind) hlines
    rw [hchild] at hinner
    obtain ⟨fragment, gone, hfragment, hinset⟩ := ih hway.2 hinner
    refine ⟨fragment, gone, hfragment, ?_⟩
    rw [depth_cons_of_isSlot hslot]
    apply (hhouses.tail more).inset
    rw [Text.prefixLines, String.toList_ofList]
    exact hinset.indent hunit fun hended => (hends hended).chain _ _ _ _ hfragment
  | @next node child target session after found way here hlines hnext _ ih =>
    rw [List.forall_mem_cons] at hway
    rw [Setting.chainOffer_lines, Synth.bind_of_ok hlines] at hrun
    obtain ⟨more, later, hmore, hwhole⟩ := Synth.ok_of_bind hrun
    obtain ⟨rfl, -⟩ := EStateM.Result.ok.inj hwhole
    rw [hnext] at hmore
    obtain ⟨fragment, gone, hfragment, hinset⟩ := ih hway.2 hmore
    refine ⟨fragment, gone, hfragment, ?_⟩
    rw [depth_cons_of_not_isSlot rfl]
    exact ((Text.houses_self ended more).lead fun hended =>
      (hends hended).lines _ _ _ _ hlines).inset hinset

/-! ### Described targets -/

theorem Part.places_script (config : Config) (node : Node) (part : Part) :
    (part.script config node).Places fun code rest =>
      rest.Meets .free (Text.Houses False code) := by
  cases part with
  | statements slot => exact fun code => ⟨Text.houses_self False code, trivial⟩
  | loop slot => exact fun code => ⟨Text.houses_self False code, trivial⟩
  | field name =>
    simp only [Part.script]
    cases node.field name <;> exact trivial
  | literal text => exact trivial
  | value slot rank fallback => exact fun code => trivial
  | index slot delta negate rank => exact fun code => trivial
  | fresh name => exact fun word => trivial
  | identifier name => exact fun word => trivial
  | helper key template => exact fun word => trivial
  | require tag text => exact trivial
  | enclosingLoop => exact fun id => trivial

theorem Part.places_scripts (config : Config) (node : Node) (parts : List Part) :
    (Part.scripts config node parts).Places fun code rest =>
      rest.Meets .free (Text.Houses False code) := by
  induction parts with
  | nil => exact trivial
  | cons part rest ih =>
    refine Script.Places.bind
      ((part.places_script config node).mono fun code script h => ?_) fun text => ?_
    · exact h.bind fun text htext => Script.meets_free_bind fun texts => htext.tail texts
    · refine Script.Places.bind (ih.mono fun code script h => ?_) fun texts => trivial
      exact h.bind fun texts htexts => htexts.lead False.elim

/-- The text of a rule for statements has the code of every slot in it. -/
theorem Rule.carries (description : Description) (config : Config)
    {step : Step} {rule : Rule} (hslot : step.link.isSlot = true)
    (hfind : description.catalog.find? step.node.kind = some rule.emitter)
    (hshape : rule.shape = .statement) :
    Setting.Carries ⟨description.target, config⟩ False step := by
  refine .inr ⟨hslot, fun emitter hfound => ?_⟩
  obtain rfl := Option.some.inj (hfind.symm.trans hfound)
  refine Script.Places.bind
    ((Part.places_scripts config step.node rule.parts).mono fun code script h => ?_)
    fun text => trivial
  refine h.bind fun text htext => ⟨text, ?_, htext⟩
  unfold Rule.emission
  rw [hshape]

end BlockSynth
