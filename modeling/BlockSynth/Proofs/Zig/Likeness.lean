import BlockSynth.Proofs.Copy
import BlockSynth.Proofs.Zig.Session

/-! # What the Zig emitters see of a node

An emitter sees the kind, the fields and the mutation of its node, the text that is injected for its
id, and its comments. Four of them also look into a slot before they ask for its code: a conditional
at its `ELSE` branch, a print statement at whether its operand is text, a repetition at whether a
number of times is plugged in, and an early return at whether a value is. Of two nodes that are
alike in all this the scripts are the same, up to faults and to the ids of loops.
-/
namespace BlockSynth.Zig

open Script

/-- A copy of a node that its emitter cannot tell from it, but for the faults and the
ids of loops. -/
structure Likeness (fault : Fault → Fault)
    (rename : String → String) (config : Config) (node copy : Node) :
    Prop where
  kind : copy.kind = node.kind
  fields : copy.fields = node.fields
  mutation : copy.mutation = node.mutation
  before : config.before quotes copy.id = config.before quotes node.id
  after : config.after quotes copy.id = config.after quotes node.id
  trap : config.trap quotes copy.id = config.trap quotes node.id
  comments : copy.comments commentMark = node.comments commentMark
  fault : ∀ field, Fault.ofOption copy field = fault (.ofOption node field)
  replay : ∀ loop, config.before quotes (rename loop) = config.before quotes loop
  otherwise : (copy.statement "ELSE").isSome = (node.statement "ELSE").isSome
  times : node.kind = "controls_repeat" → (copy.input "TIMES").isNone = (node.input "TIMES").isNone
  text : node.kind = "text_print" →
    (copy.input "TEXT").all producesText = (node.input "TEXT").all producesText
  result : node.kind = "procedures_ifreturn" → node.mutation.hasReturn = false →
    (copy.input "VALUE").isSome = (node.input "VALUE").isSome

/-- An emitter that gives a copy the same script. -/
def Faithful (fault : Fault → Fault) (rename : String → String) (config : Config)
    (emitter : Emitter) : Prop :=
  ∀ node copy, Likeness fault rename config node copy →
    emitter.script config copy = (emitter.script config node).recast fault rename

variable {fault : Fault → Fault} {rename : String → String} {config : Config} {node copy : Node}

namespace Likeness

variable (h : Likeness fault rename config node copy)
include h

theorem field (name : String) : copy.field name = node.field name := by
  rw [Node.field, Node.field, h.fields]

theorem fieldText (name : String) : copy.fieldText name = node.fieldText name := by
  rw [Node.fieldText, Node.fieldText, h.field]

theorem fieldNumber (name : String) : copy.fieldNumber name = node.fieldNumber name := by
  rw [Node.fieldNumber, Node.fieldNumber, h.field]

theorem fieldBool (name : String) : copy.fieldBool name = node.fieldBool name := by
  rw [Node.fieldBool, Node.fieldBool, h.field]

theorem optionOr (name default : String) :
    optionOr copy name default = optionOr node name default := by
  rw [Zig.optionOr, Zig.optionOr, h.fieldText]

theorem unknownOption {α : Type} (name : String) :
    (unknownOption copy name : Script α) = (unknownOption node name).recast fault rename :=
  congrArg Script.fail (h.fault name)

theorem option (name : String) : option copy name = (option node name).recast fault rename := by
  rw [Zig.option, Zig.option, h.fieldText]
  cases node.fieldText name with
  | some text => rfl
  | none => exact h.unknownOption name

theorem choose {α : Type} (name : String) (choice : Option α) :
    choose copy name choice = (choose node name choice).recast fault rename := by
  cases choice with
  | some answer => rfl
  | none => exact h.unknownOption name

theorem variableOf : variableOf copy = (variableOf node).recast fault rename := by
  simp [Zig.variableOf, h.option]

theorem itemSlots : itemSlots copy = itemSlots node := by
  rw [Zig.itemSlots, Zig.itemSlots, h.mutation]

theorem positionOf : positionOf copy = positionOf node := by
  rw [Zig.positionOf, Zig.positionOf, h.optionOr]

theorem hasElse : hasElse copy = hasElse node := by
  rw [Zig.hasElse, Zig.hasElse, h.mutation, h.kind, h.otherwise]

theorem repeatTimes : repeatTimes copy = (repeatTimes node).recast fault rename := by
  rw [Zig.repeatTimes, Zig.repeatTimes, h.kind, h.fieldNumber]
  by_cases hkind : node.kind = "controls_repeat"
  · simp [h.times hkind]
  · simp [beq_false_of_ne hkind]

end Likeness

/-! ### Common parts -/

@[simp] theorem recast_requireStd : requireStd.recast fault rename = requireStd := rfl

@[simp] theorem recast_requireAllocator :
    requireAllocator.recast fault rename = requireAllocator := rfl

@[simp] theorem recast_zigCache (code name : String) :
    (cache code name).recast fault rename = cache code name :=
  recast_cache declareConst code name

@[simp] theorem recast_cacheBound (code name : String) :
    (cacheBound code name).recast fault rename = cacheBound code name := by
  simp [cacheBound]

@[simp] theorem recast_itemsOr (slot : String) :
    (itemsOr slot).recast fault rename = itemsOr slot := by
  simp only [itemsOr, recast_bind, recast_askValue]
  refine congrArg _ (funext fun code => ?_)
  cases code <;> rfl

@[simp] theorem recast_listOr (slot : String) :
    (listOr slot).recast fault rename = listOr slot := by
  simp only [listOr, recast_bind, recast_askValue]
  refine congrArg _ (funext fun code => ?_)
  cases code <;> rfl

@[simp] theorem recast_copyItems (items : String) :
    (copyItems items).recast fault rename = copyItems items := rfl

@[simp] theorem recast_conditionalArms (lead : String) (numbers : List Nat) :
    (conditionalArms lead numbers).recast fault rename = conditionalArms lead numbers := by
  induction numbers with
  | nil => rfl
  | cons n rest ih => simp [conditionalArms, ih]

/-! ### The families -/

theorem faithful_choices : ∀ entry ∈ choices, Faithful fault rename config entry.2 := by
  simp only [choices, List.forall_mem_cons, List.not_mem_nil, false_imp_iff, implies_true, and_true]
  refine ⟨?_, ?_, ?_, ?_, ?_, ?_, ?_⟩ <;> intro node copy h
  · simp [conditional, h.before, h.after, h.mutation, h.hasElse]
  · simp [compare, h.option, h.choose]
  · simp [connect, h.option, h.choose]
  · simp [negate]
  · simp [boolean, h.choose, h.fieldBool]
  · simp [null]
  · simp [ternary]

theorem faithful_countLoop : Faithful fault rename config ⟨countLoop, false⟩ := by
  intro node copy h
  simp only [countLoop, h.variableOf, recast_bind, recast_valueOr, recast_askLoopBody]
  refine bind_congr fun name => bind_congr fun start => bind_congr fun finish =>
    bind_congr fun step =>
    bind_congr fun body => ?_
  split <;> simp

/-- The injected text of the loop that is left is the same under its new id. -/
theorem faithful_jump : Faithful fault rename config ⟨jump, true⟩ := by
  intro node copy h
  simp only [jump, h.option, h.choose, h.before, h.after, recast_bind]
  refine bind_congr fun text => bind_congr fun keyword =>
    congrArg enclosingLoop (funext fun loop => ?_)
  cases loop with
  | none => rfl
  | some id => simp [Script.bind, h.replay]

theorem faithful_iterations : ∀ entry ∈ iterations, Faithful fault rename config entry.2 := by
  simp only [iterations, List.forall_mem_cons, List.not_mem_nil, false_imp_iff, implies_true,
    and_true, faithful_countLoop, faithful_jump, true_and]
  refine ⟨?_, ?_, ?_⟩ <;> intro node copy h
  · simp [repeatLoop, h.repeatTimes]
  · simp [whileLoop, h.optionOr, h.choose]
  · simp [eachLoop, h.variableOf]

theorem faithful_bindings : ∀ entry ∈ bindings, Faithful fault rename config entry.2 := by
  simp only [bindings, List.forall_mem_cons, List.not_mem_nil, false_imp_iff,
    implies_true, and_true]
  refine ⟨?_, ?_, ?_⟩ <;> intro node copy h
  · simp [getVariable, h.variableOf]
  · simp [setVariable, h.variableOf]
  · simp [changeVariable, h.variableOf]

theorem faithful_devices : ∀ entry ∈ devices, Faithful fault rename config entry.2 := by
  simp only [devices, List.forall_mem_cons, List.not_mem_nil, false_imp_iff, implies_true, and_true]
  refine ⟨?_, ?_, ?_, ?_, ?_⟩ <;> intro node copy h
  · simp [every, h.fieldNumber]
  · simp [messageField, h.optionOr]
  · simp [readSensor, h.optionOr]
  · simp [transmit]
  · simp [composeMessage, h.itemSlots]

theorem faithful_palette : ∀ entry ∈ palette, Faithful fault rename config entry.2 := by
  simp only [palette, List.forall_mem_cons, List.not_mem_nil, false_imp_iff, implies_true, and_true]
  refine ⟨?_, ?_, ?_, ?_⟩ <;> intro node copy h
  · simp [pickColour, h.optionOr]
  · simp [randomColour]
  · simp [mixColour]
  · simp [blendColours]

theorem faithful_number : Faithful fault rename config ⟨number, false⟩ := by
  intro node copy h
  simp only [number, h.fieldNumber]
  split <;> simp

theorem faithful_apply : Faithful fault rename config ⟨apply, false⟩ := by
  intro node copy h
  simp only [apply, libraryFunction, h.option, recast_bind, recast_ite]
  refine bind_congr fun name => ite_congr rfl (fun _ => by simp) fun _ => ?_
  split
  · simp
  · simp only [recast_bind, recast_requireStd, recast_ite]
    refine bind_congr fun _ => ite_congr rfl (fun _ => by simp) fun _ => ?_
    split <;> simp [h.unknownOption]

theorem faithful_testProperty : Faithful fault rename config ⟨testProperty, false⟩ := by
  intro node copy h
  simp only [testProperty, h.option, recast_bind]
  refine bind_congr fun property => ?_
  split <;> simp [divisible, prime, h.unknownOption]

theorem faithful_constrain : Faithful fault rename config ⟨constrain, false⟩ := by
  intro node copy h
  simp only [constrain, recast_bind, recast_valueOr, recast_askValue]
  refine bind_congr fun value => bind_congr fun low => bind_congr fun high => ?_
  cases high <;> simp

theorem faithful_arithmetic : ∀ entry ∈ arithmetic, Faithful fault rename config entry.2 := by
  simp only [arithmetic, List.forall_mem_cons, List.not_mem_nil, false_imp_iff, implies_true,
    and_true, faithful_number, faithful_apply, faithful_testProperty, faithful_constrain, true_and]
  refine ⟨?_, ?_, ?_, ?_, ?_, ?_⟩ <;> intro node copy h
  · simp [operate, power, h.option, h.choose]
  · simp [constant, h.option, h.choose]
  · simp [modulo]
  · simp [randomInt]
  · simp [randomFraction]
  · simp [angle]

theorem faithful_statistics : ∀ entry ∈ statistics, Faithful fault rename config entry.2 := by
  simp only [statistics, List.forall_mem_singleton]
  intro node copy h
  simp [aggregateList, h.option, h.choose]

theorem faithful_sequences : ∀ entry ∈ sequences, Faithful fault rename config entry.2 := by
  simp only [sequences, List.forall_mem_cons, List.not_mem_nil, false_imp_iff,
    implies_true, and_true]
  refine ⟨?_, ?_, ?_, ?_, ?_, ?_, ?_, ?_⟩ <;> intro node copy h
  · simp [emptyList]
  · simp [listOf, h.itemSlots]
  · simp [repeatItem]
  · simp [listLength]
  · simp [listIsEmpty]
  · simp [sortList, h.option, h.choose, h.fieldNumber]
  · simp [splitOrJoin, h.option, h.choose]
  · simp [reverseList]

theorem faithful_changeCase : Faithful fault rename config ⟨changeCase, false⟩ := by
  intro node copy h
  simp only [changeCase, h.option, h.choose, recast_bind, recast_valueOr, recast_requireAllocator]
  refine bind_congr fun name => bind_congr fun letterCase => bind_congr fun text =>
    bind_congr fun _ => ?_
  cases letterCase <;> simp

theorem Likeness.promptMessage (h : Likeness fault rename config node copy) :
    promptMessage copy = (promptMessage node).recast fault rename := by
  simp [Zig.promptMessage, h.kind, h.optionOr]

theorem faithful_wordings :
    ∀ entry ∈ wordings, entry.1 ≠ "text_print" → Faithful fault rename config entry.2 := by
  simp only [wordings, List.forall_mem_cons, List.not_mem_nil, false_imp_iff, implies_true,
    and_true, faithful_changeCase, true_and, ne_eq, not_true_eq_false]
  refine ⟨?_, ?_, ?_, ?_, ?_, ?_, ?_, ?_, ?_, ?_, ?_⟩ <;> intro _ node copy h
  · simp [textLiteral, h.optionOr]
  · simp [textLines, h.optionOr]
  · simp [joinText, h.mutation, h.itemSlots]
  · simp [appendText, h.variableOf]
  · simp [textLength]
  · simp [textIsEmpty]
  · simp [trimText, h.option, h.choose]
  · simp [prompt, h.optionOr, h.choose, h.promptMessage]
  · simp [countText]
  · simp [replaceText]
  · simp [reverseText]

theorem Likeness.print (h : Likeness fault rename config node copy)
    (hkind : node.kind = "text_print") :
    print config copy = (print config node).recast fault rename := by
  simp [Zig.print, h.text hkind]

theorem faithful_letterAt : Faithful fault rename config ⟨letterAt, false⟩ := by
  intro node copy h
  simp only [letterAt, h.positionOf, recast_bind, recast_valueOr]
  refine bind_congr fun text => ?_
  unfold letterCode
  split <;> simp [atStart, atEnd, h.unknownOption]

@[simp] theorem recast_randomIndex (list : String) :
    (randomIndex list).recast fault rename = randomIndex list := rfl

@[simp] theorem recast_accessComputed (access : Access) (position : Position) (list : String) :
    (accessComputed config access position list).recast fault rename =
      accessComputed config access position list := by
  simp only [accessComputed, recast_ite]
  refine ite_congr rfl (fun _ => by simp) fun _ => ?_
  cases access <;> simp [atEnd]

@[simp] theorem recast_accessDirect (access : Access) (position : Position) (list : String) :
    (accessDirect config access position list).recast fault rename =
      accessDirect config access position list := by
  cases position <;> cases access <;> simp [accessDirect, atStart, atEnd]

@[simp] theorem recast_writable (insert : Bool) (position : Position) (list : String) :
    (writable insert position list).recast fault rename = writable insert position list := by
  cases position <;> simp [writable]

@[simp] theorem recast_writeItem (insert : Bool) (position : Position) (list value : String) :
    (writeItem config insert position list value).recast fault rename =
      writeItem config insert position list value := by
  cases position <;> simp [writeItem, atStart, atEnd]

theorem faithful_positions : ∀ entry ∈ positions, Faithful fault rename config entry.2 := by
  simp only [positions, List.forall_mem_cons, List.not_mem_nil, false_imp_iff, implies_true,
    and_true, faithful_letterAt, true_and]
  refine ⟨?_, ?_, ?_, ?_⟩ <;> intro node copy h
  · simp [findText, h.option, h.choose]
  · simp [findItem, h.option, h.choose]
  · simp [getItem, h.optionOr, h.choose, h.positionOf]
  · simp [setItem, h.optionOr, h.choose, h.positionOf]

@[simp] theorem recast_sliceInPlace (items : String) (start : SliceStart) (finish : SliceEnd) :
    (sliceInPlace config items start finish).recast fault rename =
      sliceInPlace config items start finish := by
  cases start <;> cases finish <;> simp [sliceInPlace, sliceFrom]

@[simp] theorem recast_sliceThrough (key template items : String)
    (start : SliceStart) (finish : SliceEnd) :
    (sliceThrough config key template items start finish).recast fault rename =
      sliceThrough config key template items start finish := by
  simp [sliceThrough]

theorem Likeness.sliceEnds (h : Likeness fault rename config node copy) :
    sliceEnds copy = (sliceEnds node).recast fault rename := by
  simp [Zig.sliceEnds, h.optionOr, h.choose]

theorem faithful_slices : ∀ entry ∈ slices, Faithful fault rename config entry.2 := by
  simp only [slices, List.forall_mem_cons, List.not_mem_nil, false_imp_iff, implies_true, and_true]
  refine ⟨?_, ?_⟩ <;> intro node copy h
  · simp [subtext, h.sliceEnds]
  · simp [sublist, h.sliceEnds]

theorem Likeness.callCode (h : Likeness fault rename config node copy) :
    callCode copy = (callCode node).recast fault rename := by
  simp [Zig.callCode, h.option, h.mutation]

theorem faithful_routines : ∀ entry ∈ routines, entry.1 ≠ "procedures_ifreturn" →
    Faithful fault rename config entry.2 := by
  simp only [routines, List.forall_mem_cons, List.not_mem_nil, false_imp_iff, implies_true,
    and_true, ne_eq, not_true_eq_false]
  refine ⟨?_, ?_, ?_⟩ <;> intro _ node copy h
  · simp [defineProcedure, h.option, h.mutation, h.before, h.after, h.trap, h.comments]
  · simp [callForValue, h.callCode]
  · simp [callForEffect, h.callCode]

theorem Likeness.returnIf (h : Likeness fault rename config node copy)
    (hkind : node.kind = "procedures_ifreturn") :
    returnIf config copy = (returnIf config node).recast fault rename := by
  cases hreturn : node.mutation.hasReturn with
  | true => simp [Zig.returnIf, h.mutation, h.before, h.after, hreturn]
  | false => simp [Zig.returnIf, h.mutation, h.before, h.after, hreturn, h.result hkind hreturn]

/-! ### The catalog -/

/-- The kinds whose emitters look at what is plugged in whatever kind they are registered under. -/
def watchful : List String :=
  ["text_print", "procedures_ifreturn"]

theorem faithful_emitters :
    ∀ entry ∈ emitters, entry.1 ∉ watchful → Faithful fault rename config entry.2 := by
  simp only [emitters, List.forall_mem_append]
  exact ⟨⟨⟨⟨⟨⟨⟨⟨⟨⟨⟨fun entry hmem _ => faithful_choices entry hmem,
    fun entry hmem _ => faithful_iterations entry hmem⟩,
    fun entry hmem _ => faithful_arithmetic entry hmem⟩,
    fun entry hmem _ => faithful_statistics entry hmem⟩,
    fun entry hmem hnot => faithful_wordings entry hmem fun heq => hnot (by simp [watchful, heq])⟩,
    fun entry hmem _ => faithful_positions entry hmem⟩,
    fun entry hmem _ => faithful_slices entry hmem⟩,
    fun entry hmem _ => faithful_sequences entry hmem⟩,
    fun entry hmem _ => faithful_palette entry hmem⟩,
    fun entry hmem _ => faithful_bindings entry hmem⟩,
    fun entry hmem hnot => faithful_routines entry hmem fun heq => hnot (by simp [watchful, heq])⟩,
    fun entry hmem _ => faithful_devices entry hmem⟩

theorem faithful_catalog {kind : String} {emitter : Emitter}
    (hfind : catalog.find? kind = some emitter) (hkind : kind ∉ watchful) :
    Faithful fault rename config emitter := by
  obtain ⟨name, hmem, hname⟩ := registered_of_find? hfind
  refine faithful_emitters (name, emitter) hmem ?_
  have haliases : ∀ pair ∈ aliases, pair.2 ∉ watchful := by decide
  rcases hname with rfl | halias
  · exact hkind
  · exact haliases (kind, name) halias

/-- Nodes that are alike have the same script. -/
theorem Likeness.script (h : Likeness fault rename config node copy) {emitter : Emitter}
    (hfind : catalog.find? node.kind = some emitter) :
    emitter.script config copy = (emitter.script config node).recast fault rename := by
  by_cases hkind : node.kind ∈ watchful
  · rcases List.mem_pair.mp hkind with hprint | hreturn
    · have hprints : catalog.find? "text_print" = some ⟨Zig.print, false⟩ :=
        (find?_catalog (by decide)).trans rfl
      rw [hprint, hprints] at hfind
      obtain rfl := Option.some.inj hfind
      exact h.print hprint
    · have hreturns : catalog.find? "procedures_ifreturn" = some ⟨Zig.returnIf, true⟩ :=
        (find?_catalog (by decide)).trans rfl
      rw [hreturn, hreturns] at hfind
      obtain rfl := Option.some.inj hfind
      exact h.returnIf hreturn
  · exact faithful_catalog hfind hkind node copy h

/-- A node is like itself to whoever hears no difference between the ids of loops. -/
theorem Likeness.self (h : Likeness fault rename config node copy) :
    Likeness id rename config node node where
  kind := rfl
  fields := rfl
  mutation := rfl
  before := rfl
  after := rfl
  trap := rfl
  comments := rfl
  fault _ := rfl
  replay := h.replay
  otherwise := rfl
  times _ := rfl
  text _ := rfl
  result _ _ := rfl

theorem Likeness.resembles (h : Likeness (Fault.renamed rename) rename config node copy)
    (hid : copy.id = rename node.id) (hdisabled : copy.disabled = node.disabled) :
    (setting config).Resembles rename node copy where
  id := hid
  kind := h.kind
  disabled := hdisabled
  comments := h.comments
  before := h.before
  after := h.after
  trap := h.trap
  script _ hfind := by
    rw [catalog_setting] at hfind
    exact ⟨h.script hfind, (h.self.script hfind).symm⟩

end BlockSynth.Zig
