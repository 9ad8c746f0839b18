import BlockSynth.Proofs.Graph.Node
import BlockSynth.Proofs.Zig.Injection
import BlockSynth.Proofs.Zig.Likeness
import BlockSynth.Proofs.Zig.Mention

/-! # Ids and the program

Ids get into a program through the templates of the configuration only. Where no template asks for
the id, a workspace is rendered as its anonymous copy is, in which no node has an id; so workspaces
that differ in their ids alone have the same program.
-/
namespace BlockSynth

/-! ### Templates without a mark -/

theorem Chars.replace_of_not_infix {pattern text : List Char}
    (h : ¬pattern <:+: text) (new : List Char) :
    replace pattern new text = text := by
  unfold replace
  induction text with
  | nil => rfl
  | cons c rest ih =>
    have hstart : ¬pattern.isPrefixOf (c :: rest) = true :=
      fun hstart => h (List.isPrefixOf_iff_prefix.mp hstart).isInfix
    have hrest : ¬pattern <:+: rest :=
      fun hrest => h (hrest.trans (List.suffix_cons c rest).isInfix)
    rw [replaceAfter, if_neg hstart, ih hrest]

/-- No template of the configuration asks for an id. -/
def Config.Unmarked (config : Config) : Prop :=
  ∀ template ∈ [config.beforeStatement, config.afterStatement, config.loopTrap], ∀ text ∈ template,
    ¬Mentions "%1" text

theorem Config.injected_unmarked {template : Option String}
    (h : ∀ text ∈ template, ¬Mentions "%1" text) (style : QuoteStyle) (id other : String) :
    injected style template id = injected style template other := by
  cases template with
  | none => rfl
  | some text =>
    have hreplace : ∀ new, Text.replace "%1" new text = text := fun new => by
      rw [Text.replace, Chars.replace_of_not_infix (h text rfl), String.ofList_toList]
    simp only [injected, QuoteStyle.inject, hreplace]

namespace Config.Unmarked

variable {config : Config} (h : config.Unmarked) (style : QuoteStyle) (id other : String)
include h

theorem before : config.before style id = config.before style other :=
  injected_unmarked (h _ (by simp)) style id other

theorem after : config.after style id = config.after style other :=
  injected_unmarked (h _ (by simp)) style id other

theorem trap : config.trap style id = config.trap style other :=
  injected_unmarked (h _ (by simp)) style id other

end Config.Unmarked

/-! ### Nodes without ids -/

mutual

/-- The node without its id and those of all nodes below it. -/
def Node.anonymous : Node → Node
  | ⟨_, kind, fields, inputs, statements, next, comment, disabled, mutation⟩ =>
    ⟨"", kind, fields, anonymousSlots inputs, anonymousSlots statements, anonymousChain next,
      comment, disabled, mutation⟩
termination_by structural node => node

def anonymousSlots : List (String × Node) → List (String × Node)
  | [] => []
  | (slot, node) :: rest => (slot, node.anonymous) :: anonymousSlots rest
termination_by structural slots => slots

def anonymousChain : Option Node → Option Node
  | none => none
  | some node => some node.anonymous
termination_by structural first => first

end

def Workspace.anonymous (workspace : Workspace) : Workspace :=
  { workspace with roots := workspace.roots.map Node.anonymous }

theorem lookup_anonymousSlots (slots : List (String × Node)) (slot : String) :
    (anonymousSlots slots).lookup slot = (slots.lookup slot).map Node.anonymous := by
  induction slots with
  | nil => rfl
  | cons entry rest ih =>
    obtain ⟨name, node⟩ := entry
    rw [anonymousSlots, List.lookup_cons, List.lookup_cons]
    cases slot == name with
    | true => rfl
    | false => exact ih

namespace Node

variable (node : Node)

theorem anonymous_eq : node.anonymous =
    { node with
      id := ""
      inputs := anonymousSlots node.inputs
      statements := anonymousSlots node.statements
      next := anonymousChain node.next } := by
  cases node
  rfl

theorem anonymous_input (slot : String) :
    node.anonymous.input slot = (node.input slot).map anonymous := by
  rw [anonymous_eq]
  exact lookup_anonymousSlots node.inputs slot

theorem anonymous_statement (slot : String) :
    node.anonymous.statement slot = (node.statement slot).map anonymous := by
  rw [anonymous_eq]
  exact lookup_anonymousSlots node.statements slot

@[simp] theorem anonymous_fieldText (name : String) :
    node.anonymous.fieldText name = node.fieldText name := by
  rw [anonymous_eq]
  rfl

mutual

theorem nodes_anonymous (node : Node) : node.anonymous.nodes = node.nodes.map anonymous := by
  obtain ⟨id, kind, fields, inputs, statements, next, comment, disabled, mutation⟩ := node
  have hinputs := slotNodes_anonymous inputs
  have hstatements := slotNodes_anonymous statements
  have hnext := chainNodes_anonymous next
  rw [anonymous, nodes, hinputs, hstatements, hnext, nodes, List.map_cons, List.map_append,
    List.map_append, anonymous]
termination_by structural node

theorem slotNodes_anonymous (slots : List (String × Node)) :
    slotNodes (anonymousSlots slots) = (slotNodes slots).map anonymous := by
  cases slots with
  | nil => rfl
  | cons entry rest =>
    obtain ⟨slot, node⟩ := entry
    rw [anonymousSlots, slotNodes, slotNodes, List.map_append, nodes_anonymous node,
      slotNodes_anonymous rest]
termination_by structural slots

theorem chainNodes_anonymous (first : Option Node) :
    chainNodes (anonymousChain first) = (chainNodes first).map anonymous := by
  cases first with
  | none => rfl
  | some node => exact nodes_anonymous node
termination_by structural first

end

theorem remarks_anonymous :
    node.anonymous.nodes.filterMap remark = node.nodes.filterMap remark := by
  have hremark : remark ∘ anonymous = remark := by
    funext each
    rw [Function.comp_apply, anonymous_eq]
    rfl
  rw [nodes_anonymous, List.filterMap_map, hremark]

theorem comments_anonymous (mark : String) : node.anonymous.comments mark = node.comments mark := by
  have hslots : ∀ (f : List String → String) (slots : List (String × Node)),
      (anonymousSlots slots).map (fun slot => f (slot.2.nodes.filterMap remark)) =
        slots.map fun slot => f (slot.2.nodes.filterMap remark) := by
    intro f slots
    induction slots with
    | nil => rfl
    | cons entry rest ih =>
      obtain ⟨slot, child⟩ := entry
      rw [anonymousSlots, List.map_cons, List.map_cons, ih, remarks_anonymous]
  rw [anonymous_eq]
  unfold Node.comments
  dsimp only
  rw [hslots fun remarks => Text.prefixLines mark (String.join (remarks.map (· ++ "\n")))]
  rfl

end Node

namespace Zig

/-- All nodes under one id. -/
def hide (_ : String) : String :=
  ""

variable {config : Config}

theorem producesText_anonymous (node : Node) : producesText node.anonymous = producesText node := by
  unfold producesText
  rw [node.anonymous_fieldText, node.anonymous_eq]

/-- No emitter can tell a node from its anonymous copy. -/
theorem likeness_anonymous (h : config.Unmarked) (node : Node) :
    Likeness (Fault.renamed hide) hide config node node.anonymous where
  kind := by rw [node.anonymous_eq]
  fields := by rw [node.anonymous_eq]
  mutation := by rw [node.anonymous_eq]
  before := h.before quotes _ _
  after := h.after quotes _ _
  trap := h.trap quotes _ _
  comments := node.comments_anonymous commentMark
  fault field := by
    rw [node.anonymous_eq]
    rfl
  replay loop := h.before quotes _ _
  otherwise := by rw [node.anonymous_statement, Option.isSome_map]
  times _ := by rw [node.anonymous_input, Option.isNone_map]
  text _ := by
    rw [node.anonymous_input, Option.all_map]
    exact congrArg (Option.all · _) (funext producesText_anonymous)
  result _ _ := by rw [node.anonymous_input, Option.isSome_map]

theorem resembles_anonymous (h : config.Unmarked) (node : Node) :
    (setting config).Resembles hide node node.anonymous := by
  refine (likeness_anonymous h node).resembles ?_ ?_
  · rw [node.anonymous_eq]
    rfl
  · rw [node.anonymous_eq]

open Synth (Copies)

/-- The anonymous copy of a node emits the same, and what follows it is rendered alike. -/
structure CopiedAlike (config : Config) (node : Node) : Prop where
  emission : Copies hide (node.offer (setting config)).emission
    (node.anonymous.offer (setting config)).emission
  next : Copies hide (chainOffer (setting config) node.next)
    (chainOffer (setting config) node.anonymous.next)

mutual

theorem copied_alike (h : config.Unmarked) (node : Node) : CopiedAlike config node := by
  have hresembles := resembles_anonymous h node
  obtain ⟨id, kind, fields, inputs, statements, next, comment, disabled, mutation⟩ := node
  refine ⟨hresembles.emission (fun _ => rfl) (fun slot place => ?_) fun slot => ?_, ?_⟩
  · exact inputs_copied h inputs slot place
  · exact branches_copied h statements slot
  · exact chain_copied h next
termination_by structural node

theorem inputs_copied (h : config.Unmarked)
    (slots : List (String × Node)) (slot : String) (place : Rank) :
    Copies hide (valueOffer (setting config) place (slots.lookup slot))
      (valueOffer (setting config) place ((anonymousSlots slots).lookup slot)) := by
  cases slots with
  | nil => exact Copies.pure none
  | cons entry rest =>
    obtain ⟨name, node⟩ := entry
    rw [anonymousSlots, List.lookup_cons, List.lookup_cons]
    cases slot == name with
    | true => exact (resembles_anonymous h node).value (copied_alike h node).emission place
    | false => exact inputs_copied h rest slot place
termination_by structural slots

theorem branches_copied (h : config.Unmarked) (slots : List (String × Node)) (slot : String) :
    Copies hide (chainOffer (setting config) (slots.lookup slot))
      (chainOffer (setting config) ((anonymousSlots slots).lookup slot)) := by
  cases slots with
  | nil => exact Copies.pure ""
  | cons entry rest =>
    obtain ⟨name, node⟩ := entry
    rw [anonymousSlots, List.lookup_cons, List.lookup_cons]
    have hnode := copied_alike h node
    cases slot == name with
    | true => exact (resembles_anonymous h node).chain hnode.emission hnode.next
    | false => exact branches_copied h rest slot
termination_by structural slots

theorem chain_copied (h : config.Unmarked) (first : Option Node) :
    Copies hide (chainOffer (setting config) first)
      (chainOffer (setting config) (anonymousChain first)) := by
  cases first with
  | none => exact Copies.pure ""
  | some node =>
    have hnode := copied_alike h node
    exact (resembles_anonymous h node).chain hnode.emission hnode.next
termination_by structural first

end

theorem opening_anonymous (workspace : Workspace) :
    opening workspace.anonymous = opening workspace := by
  have hname : definedName ∘ Node.anonymous = definedName := by
    funext root
    rw [Function.comp_apply, definedName, definedName, root.anonymous_fieldText, root.anonymous_eq]
  funext ledger
  unfold opening Workspace.anonymous
  rw [List.filterMap_map, hname]

/-- The anonymous copy of a workspace has the same program, or a fault that differs in its id. -/
theorem generate_anonymous (h : config.Unmarked) (workspace : Workspace) :
    (setting config).generate workspace.anonymous =
      ((setting config).generate workspace).mapError (Fault.renamed hide) := by
  refine generate_copies (opening_anonymous workspace) ?_
  refine List.forall₂_map_right_iff.mpr (List.forall₂_same.mpr fun root _ => ?_)
  have hroot := copied_alike h root
  exact (resembles_anonymous h root).renderRoot hroot.emission hroot.next

/-- Two workspaces that differ in the ids of their nodes alone have the same program,
or neither has one. -/
theorem ids_leave_no_trace {workspace other : Workspace} (hunmarked : config.Unmarked)
    (hids : workspace.anonymous = other.anonymous) (program : String) :
    (setting config).generate workspace = .ok program ↔
    (setting config).generate other = .ok program := by
  have hsame : ((setting config).generate workspace).mapError (Fault.renamed hide) =
      ((setting config).generate other).mapError (Fault.renamed hide) := by
    rw [← generate_anonymous hunmarked, ← generate_anonymous hunmarked, hids]
  have hok : ∀ result : Except Fault String,
      result = .ok program ↔ result.mapError (Fault.renamed hide) = .ok program := by
    intro result
    cases result <;> simp [Except.mapError]
  rw [hok, hsame, ← hok]

/-- The same text before every statement and at the top of every loop body. -/
def steady : Config :=
  { beforeStatement := some "tick();\n", loopTrap := some "turn();\n" }

/-- A loop that is left in its first round, with an id for each node and with one for both. -/
theorem ids_of_broken_loop_leave_no_trace :
    let workspace : Workspace := ⟨[], [brokenLoop]⟩
    let other : Workspace :=
      ⟨[], [{ brokenLoop with id := "one", statements := [("DO", { wayOut with id := "one" })] }]⟩
    steady.Unmarked ∧ workspace.anonymous = other.anonymous ∧
      ∃ program, (setting steady).generate workspace = .ok program ∧
        (setting steady).generate other = .ok program := by
  intro workspace other
  have hunmarked : steady.Unmarked := by
    simp only [Config.Unmarked, Mentions, ← Chars.occurs_iff, steady]
    decide +kernel
  have hids : workspace.anonymous = other.anonymous := rfl
  obtain ⟨code, hemission⟩ := emission_brokenLoop steady
    ((setting steady).openProgram workspace (setting steady).session)
  have hroots : (setting steady).renderRoots workspace.roots _ = .ok _ _ :=
    Synth.bind_of_ok (renderRoot_of_statement hemission rfl rfl rfl) _
  have hprogram := generate_of_roots hroots
  exact ⟨hunmarked, hids, _, hprogram, (ids_leave_no_trace hunmarked hids _).mp hprogram⟩

end Zig

end BlockSynth
