import BlockSynth.Described
import BlockSynth.Proofs.Copy
import BlockSynth.Proofs.Graph.Node

/-! # Pruning

Pruning takes every disabled node out of a graph, at every depth: out of its value
slot, and out of its chain, where what follows it takes its place. An emitter that
does not look into the slots of its node itself cannot tell a graph from the pruned
one, and the emitters of a described target never do.
-/
namespace BlockSynth

mutual

/-- The node with all below it pruned. -/
def Node.trimmed : Node → Node
  | ⟨id, kind, fields, inputs, statements, next, comment, disabled, mutation⟩ =>
    ⟨id, kind, fields, pruneInputs inputs, pruneBranches statements, pruneChain next, comment,
      disabled, mutation⟩
termination_by structural node => node

def pruneInputs : List (String × Node) → List (String × Node)
  | [] => []
  | (slot, node) :: rest =>
    if node.disabled then Keyed.without slot (pruneInputs rest)
      else (slot, node.trimmed) :: pruneInputs rest
termination_by structural slots => slots

/-- A slot goes with the last node of its chain. -/
def pruneBranches : List (String × Node) → List (String × Node)
  | [] => []
  | (slot, node) :: rest =>
    match if node.disabled then node.trimmed.next else some node.trimmed with
    | some first => (slot, first) :: pruneBranches rest
    | none => Keyed.without slot (pruneBranches rest)
termination_by structural slots => slots

def pruneChain : Option Node → Option Node
  | none => none
  | some node => if node.disabled then node.trimmed.next else some node.trimmed
termination_by structural first => first

end

/-- A node in a value slot, unless it is disabled. -/
def pruneValue : Option Node → Option Node
  | none => none
  | some node => if node.disabled then none else some node.trimmed

namespace Node

variable (node : Node)

theorem trimmed_eq : node.trimmed =
    { node with
      inputs := pruneInputs node.inputs
      statements := pruneBranches node.statements
      next := pruneChain node.next } := by
  cases node
  rfl

@[simp] theorem trimmed_id : node.trimmed.id = node.id := by rw [trimmed_eq]

@[simp] theorem trimmed_kind : node.trimmed.kind = node.kind := by rw [trimmed_eq]

@[simp] theorem trimmed_fields : node.trimmed.fields = node.fields := by rw [trimmed_eq]

@[simp] theorem trimmed_disabled : node.trimmed.disabled = node.disabled := by rw [trimmed_eq]

@[simp] theorem trimmed_remark : node.trimmed.remark = node.remark := by rw [trimmed_eq]; rfl

@[simp] theorem trimmed_inputs : node.trimmed.inputs = pruneInputs node.inputs := by rw [trimmed_eq]

@[simp] theorem trimmed_statements :
    node.trimmed.statements = pruneBranches node.statements := by rw [trimmed_eq]

@[simp] theorem trimmed_next : node.trimmed.next = pruneChain node.next := by rw [trimmed_eq]

end Node

theorem pruneChain_some (node : Node) :
    pruneChain (some node) = if node.disabled then pruneChain node.next else some node.trimmed := by
  rw [pruneChain, Node.trimmed_next]

theorem lookup_pruneInputs (slots : List (String × Node)) (slot : String) :
    (pruneInputs slots).lookup slot = pruneValue (slots.lookup slot) := by
  induction slots with
  | nil => rfl
  | cons entry rest ih =>
    obtain ⟨name, node⟩ := entry
    by_cases hname : slot = name
    · subst hname
      rw [pruneInputs, List.lookup_cons_self, pruneValue]
      split
      · exact Keyed.lookup_without_self _ _
      · exact List.lookup_cons_self
    · have hbeq : (slot == name) = false := beq_false_of_ne hname
      rw [pruneInputs, List.lookup_cons, hbeq]
      split
      · exact (Keyed.lookup_without_of_ne hname _).trans ih
      · rw [List.lookup_cons, hbeq]
        exact ih

theorem lookup_pruneBranches (slots : List (String × Node)) (slot : String) :
    (pruneBranches slots).lookup slot = pruneChain (slots.lookup slot) := by
  induction slots with
  | nil => rfl
  | cons entry rest ih =>
    obtain ⟨name, node⟩ := entry
    have hfirst : pruneChain (some node) = if node.disabled then node.trimmed.next
        else some node.trimmed := by
      rw [pruneChain]
    rw [pruneBranches, ← hfirst]
    by_cases hname : slot = name
    · subst hname
      rw [List.lookup_cons_self]
      cases pruneChain (some node) with
      | none => exact Keyed.lookup_without_self _ _
      | some first => exact List.lookup_cons_self
    · have hbeq : (slot == name) = false := beq_false_of_ne hname
      rw [List.lookup_cons, hbeq]
      cases pruneChain (some node) with
      | none => exact (Keyed.lookup_without_of_ne hname _).trans ih
      | some first =>
        rw [List.lookup_cons, hbeq]
        exact ih

/-! ### What is left -/

/-- A node that was there before, not disabled, with all below it pruned. -/
def Kept (old : List Node) (each : Node) : Prop :=
  ∃ node ∈ old, node.disabled = false ∧ each = node.trimmed

theorem Kept.mono {old more : List Node} {each : Node} (h : Kept old each) (hsub : old ⊆ more) :
    Kept more each := by
  obtain ⟨node, hmem, henabled, rfl⟩ := h
  exact ⟨node, hsub hmem, henabled, rfl⟩

open Node (slotNodes chainNodes)

/-- A chain leaves its first node, or else what is left of the rest. -/
theorem kept_chain {node : Node}
    (h : ∀ each ∈ node.trimmed.descendants, Kept node.descendants each) :
    ∀ each ∈ chainNodes (pruneChain (some node)), Kept node.nodes each := by
  rw [pruneChain_some, node.nodes_eq]
  intro each heach
  split at heach
  · have hbelow : each ∈ node.trimmed.descendants := by
      rw [Node.descendants, Node.trimmed_next]
      exact List.mem_append_right _ heach
    exact (h each hbelow).mono (List.subset_cons_self node node.descendants)
  · rename_i henabled
    rw [chainNodes, Node.nodes_eq, List.mem_cons] at heach
    rcases heach with rfl | hbelow
    · exact ⟨node, List.mem_cons_self, by simpa using henabled, rfl⟩
    · exact (h each hbelow).mono (List.subset_cons_self node node.descendants)

theorem slotNodes_without (slot : String) (slots : List (String × Node)) :
    slotNodes (Keyed.without slot slots) ⊆ slotNodes slots := by
  intro each heach
  obtain ⟨entry, hentry, hmem⟩ := Node.mem_slotNodes.mp heach
  exact Node.mem_slotNodes.mpr ⟨entry, List.mem_of_mem_filter hentry, hmem⟩

mutual

theorem kept_descendants (node : Node) :
    ∀ each ∈ node.trimmed.descendants, Kept node.descendants each := by
  obtain ⟨id, kind, fields, inputs, statements, next, comment, disabled, mutation⟩ := node
  intro each heach
  rcases List.mem_append.mp heach with hslots | hnext
  · rcases List.mem_append.mp hslots with hinput | hbranch
    · exact (kept_inputs inputs each hinput).mono fun old hold => by simp [Node.descendants, hold]
    · exact (kept_branches statements each hbranch).mono fun old hold => by
        simp [Node.descendants, hold]
  · exact (kept_next next each hnext).mono fun old hold => by simp [Node.descendants, hold]
termination_by structural node

theorem kept_inputs (slots : List (String × Node)) :
    ∀ each ∈ slotNodes (pruneInputs slots), Kept (slotNodes slots) each := by
  cases slots with
  | nil => exact List.forall_mem_nil _
  | cons entry rest =>
    obtain ⟨slot, node⟩ := entry
    have hrest : ∀ each ∈ slotNodes (pruneInputs rest), Kept (node.nodes ++ slotNodes rest) each :=
      fun each heach => (kept_inputs rest each heach).mono (List.subset_append_right _ _)
    have hnode := kept_descendants node
    rw [pruneInputs, slotNodes]
    intro each heach
    split at heach
    · exact hrest each (slotNodes_without slot _ heach)
    · rename_i henabled
      rw [slotNodes, List.mem_append, Node.nodes_eq, List.mem_cons] at heach
      rcases heach with (rfl | hbelow) | hmore
      · exact ⟨node, List.mem_append_left _ node.mem_nodes_self, by simpa using henabled, rfl⟩
      · refine (hnode each hbelow).mono fun old hold => ?_
        rw [node.nodes_eq]
        exact List.mem_append_left _ (List.mem_cons_of_mem node hold)
      · exact hrest each hmore
termination_by structural slots

theorem kept_branches (slots : List (String × Node)) :
    ∀ each ∈ slotNodes (pruneBranches slots), Kept (slotNodes slots) each := by
  cases slots with
  | nil => exact List.forall_mem_nil _
  | cons entry rest =>
    obtain ⟨slot, node⟩ := entry
    have hrest : ∀ each ∈ slotNodes (pruneBranches rest),
        Kept (node.nodes ++ slotNodes rest) each :=
      fun each heach => (kept_branches rest each heach).mono (List.subset_append_right _ _)
    have hnode := kept_chain (kept_descendants node)
    rw [pruneChain] at hnode
    rw [pruneBranches, slotNodes]
    intro each heach
    cases hfirst : (if node.disabled then node.trimmed.next else some node.trimmed) with
    | none =>
      rw [hfirst] at heach
      exact hrest each (slotNodes_without slot _ heach)
    | some first =>
      rw [hfirst] at heach hnode
      rcases List.mem_append.mp heach with hhere | hmore
      · exact (hnode each hhere).mono (List.subset_append_left _ _)
      · exact hrest each hmore
termination_by structural slots

theorem kept_next (first : Option Node) :
    ∀ each ∈ chainNodes (pruneChain first), Kept (chainNodes first) each := by
  cases first with
  | none => exact List.forall_mem_nil _
  | some node => exact kept_chain (kept_descendants node)
termination_by structural first

end

/-- What is left of a value is left of it as a chain. -/
theorem chainNodes_pruneValue (value : Option Node) :
    chainNodes (pruneValue value) ⊆ chainNodes (pruneChain value) := by
  cases value with
  | none => exact List.Subset.refl _
  | some node =>
    rw [pruneValue, pruneChain]
    split
    · exact List.nil_subset _
    · exact List.Subset.refl _

/-- No disabled node is left. -/
theorem enabled_of_mem_pruneChain {first : Option Node}
    {each : Node} (h : each ∈ chainNodes (pruneChain first)) :
    each.disabled = false := by
  obtain ⟨old, -, henabled, rfl⟩ := kept_next first each h
  rw [Node.trimmed_disabled, henabled]

theorem Node.Silent.trimmed {node : Node} (h : node.Silent) : node.trimmed.Silent := by
  intro each heach
  rw [Node.nodes_eq, List.mem_cons] at heach
  rcases heach with rfl | hbelow
  · rw [Node.trimmed_remark]
    exact h node node.mem_nodes_self
  · obtain ⟨old, hold, -, rfl⟩ := kept_descendants node each hbelow
    rw [Node.trimmed_remark]
    refine h old ?_
    rw [Node.nodes_eq]
    exact List.mem_cons_of_mem node hold

/-! ### Rendering -/

/-- The emitters of the target see no more of a node than its id, its kind and its fields. -/
def Setting.Sealed (setting : Setting) : Prop :=
  setting.target.catalog.All fun emitter => ∀ node copy : Node,
    copy.id = node.id → copy.kind = node.kind →
    copy.fields = node.fields →
    emitter.script setting.config copy = emitter.script setting.config node

section Rendering

variable {setting : Setting}

theorem resembles_trimmed (hsealed : setting.Sealed) {node : Node} (h : node.Silent) :
    setting.Resembles id node node.trimmed := by
  refine setting.resembles_id (by simp) (by simp) (by simp) ?_ fun emitter hfind => ?_
  · unfold Setting.comments
    rw [h.comments, h.trimmed.comments]
  · exact hsealed.find? hfind node node.trimmed (by simp) (by simp) (by simp)

/-- The node emits the same with all below it pruned, and what follows it answers the same. -/
def PrunedAlike (setting : Setting) (node : Node) : Prop :=
  (node.trimmed.offer setting).emission = (node.offer setting).emission ∧
    chainOffer setting (pruneChain node.next) = chainOffer setting node.next

theorem PrunedAlike.chain {node : Node} (h : PrunedAlike setting node)
    (hsealed : setting.Sealed) (hsilent : node.Silent) :
    chainOffer setting (pruneChain (some node)) = chainOffer setting (some node) := by
  rw [pruneChain_some]
  split
  · rename_i hdisabled
    rw [chainOffer_of_disabled hdisabled, h.2]
  · refine Synth.copies_id.mp
      ((resembles_trimmed hsealed hsilent).chain (Synth.copies_id.mpr h.1) ?_)
    rw [Node.trimmed_next]
    exact Synth.copies_id.mpr h.2

theorem PrunedAlike.value {node : Node} (h : PrunedAlike setting node) (hsealed : setting.Sealed)
    (hsilent : node.Silent) (place : Rank) :
    valueOffer setting place (pruneValue (some node)) = valueOffer setting place (some node) := by
  rw [pruneValue]
  split
  · rename_i hdisabled
    exact (valueOffer_of_disabled hdisabled place).symm
  · exact Synth.copies_id.mp
      ((resembles_trimmed hsealed hsilent).value (Synth.copies_id.mpr h.1) place)

mutual

theorem pruned_alike (hsealed : setting.Sealed) (node : Node) (h : node.Silent) :
    PrunedAlike setting node := by
  have hresembles := resembles_trimmed hsealed h
  obtain ⟨-, hinputs, hstatements, hnext⟩ := Node.silent_iff.mp h
  obtain ⟨id, kind, fields, inputs, statements, next, comment, disabled, mutation⟩ := node
  refine ⟨Synth.copies_id.mp
    (hresembles.emission (fun _ => rfl) (fun slot place => ?_) fun slot => ?_), ?_⟩
  · exact Synth.copies_id.mpr (inputs_pruned hsealed inputs hinputs slot place)
  · exact Synth.copies_id.mpr (branches_pruned hsealed statements hstatements slot)
  · exact chain_pruned hsealed next hnext
termination_by structural node

theorem inputs_pruned (hsealed : setting.Sealed) (slots : List (String × Node))
    (h : ∀ entry ∈ slots, entry.2.Silent) (slot : String) (place : Rank) :
    valueOffer setting place ((pruneInputs slots).lookup slot) =
      valueOffer setting place (slots.lookup slot) := by
  rw [lookup_pruneInputs]
  cases slots with
  | nil => rfl
  | cons entry rest =>
    obtain ⟨name, node⟩ := entry
    rw [List.forall_mem_cons] at h
    rw [List.lookup_cons]
    cases slot == name with
    | true => exact (pruned_alike hsealed node h.1).value hsealed h.1 place
    | false => rw [← inputs_pruned hsealed rest h.2 slot place, lookup_pruneInputs]
termination_by structural slots

theorem branches_pruned (hsealed : setting.Sealed) (slots : List (String × Node))
    (h : ∀ entry ∈ slots, entry.2.Silent) (slot : String) :
    chainOffer setting ((pruneBranches slots).lookup slot) =
      chainOffer setting (slots.lookup slot) := by
  rw [lookup_pruneBranches]
  cases slots with
  | nil => rfl
  | cons entry rest =>
    obtain ⟨name, node⟩ := entry
    rw [List.forall_mem_cons] at h
    rw [List.lookup_cons]
    cases slot == name with
    | true => exact (pruned_alike hsealed node h.1).chain hsealed h.1
    | false => rw [← branches_pruned hsealed rest h.2 slot, lookup_pruneBranches]
termination_by structural slots

theorem chain_pruned (hsealed : setting.Sealed)
    (first : Option Node) (h : ∀ node ∈ first, node.Silent) :
    chainOffer setting (pruneChain first) = chainOffer setting first := by
  cases first with
  | none => rfl
  | some node => exact (pruned_alike hsealed node (h node rfl)).chain hsealed (h node rfl)
termination_by structural first

end

theorem renderValue_eq (node : Option Node) (place : Rank) (fallback : String) :
    setting.renderValue node place fallback =
      (do return (← valueOffer setting place node).getD fallback) := by
  cases node <;> rfl

end Rendering

/-! ### Described targets -/

theorem Part.scripts_congr (config : Config) {node copy : Node} (hid : copy.id = node.id)
    (hkind : copy.kind = node.kind) (hfields : copy.fields = node.fields) (parts : List Part) :
    Part.scripts config copy parts = Part.scripts config node parts := by
  have hpart : ∀ part : Part, part.script config copy = part.script config node := by
    intro part
    cases part with
    | field name => simp only [Part.script, Node.field, Fault.ofOption, hid, hkind, hfields]
    | _ => rfl
  induction parts with
  | nil => rfl
  | cons part rest ih => rw [Part.scripts, Part.scripts, hpart, ih]

theorem described_sealed (description : Description) (config : Config) :
    Setting.Sealed ⟨description.target, config⟩ := by
  have hrule : ∀ rule : Rule, ∀ node copy : Node, copy.id = node.id → copy.kind = node.kind →
      copy.fields = node.fields →
      rule.emitter.script config copy = rule.emitter.script config node := by
    intro rule node copy hid hkind hfields
    simp only [Rule.emitter, Part.scripts_congr config hid hkind hfields]
  refine (Catalog.All.registerAll (List.forall_mem_nil _) fun entry hentry => ?_).withAliases
    description.aliases
  obtain ⟨⟨kind, rule⟩, -, rfl⟩ := List.mem_map.mp hentry
  exact hrule rule

/-- A described target renders a graph without comments as it renders the pruned one, from every
session and with the same session behind it, and no disabled node is left in that. -/
theorem disabled_nodes_are_passed_over (description : Description) (config : Config) {node : Node}
    (hsilent : ∀ each ∈ node.nodes, each.remark = none) (session : Session) :
    let setting : Setting := ⟨description.target, config⟩
    setting.renderChain (pruneChain (some node)) session = setting.renderChain (some node) session ∧
      (∀ place fallback, setting.renderValue (pruneValue (some node)) place fallback session =
        setting.renderValue (some node) place fallback session) ∧
      (∀ each ∈ Node.chainNodes (pruneChain (some node)), each.disabled = false) ∧
      ∀ each ∈ Node.chainNodes (pruneValue (some node)), each.disabled = false := by
  intro setting
  have hsealed : setting.Sealed := described_sealed description config
  have halike := pruned_alike hsealed node hsilent
  refine ⟨?_, fun place fallback => ?_, ?_, ?_⟩
  · unfold Setting.renderChain
    rw [halike.chain hsealed hsilent]
  · rw [renderValue_eq, renderValue_eq, halike.value hsealed hsilent]
  · exact fun each heach => enabled_of_mem_pruneChain heach
  · exact fun each heach => enabled_of_mem_pruneChain (chainNodes_pruneValue _ heach)

/-- A target that knows one statement, which says what is in its slot. -/
def sayings : Description :=
  { rules := [("say",
      { shape := .statement, parts := [.literal "say ", .value "WHAT" .none "nothing", .literal "\n"] })] }

/-- Two statements and a disabled one between them; the first has a disabled input. -/
def halfSaid : Node :=
  { id := "a", kind := "say",
    inputs := [("WHAT", { id := "b", kind := "unknown", disabled := true })],
    next := some { id := "c", kind := "unknown", disabled := true,
                   next := some { id := "d", kind := "say" } } }

/-- With nodes that the target could not render if they were not disabled. -/
theorem disabled_nodes_of_half_said_are_passed_over :
    let setting : Setting := ⟨sayings.target, {}⟩
    (∀ each ∈ halfSaid.nodes, each.remark = none) ∧
      setting.renderChain (pruneChain (some halfSaid)) setting.session =
        setting.renderChain (some halfSaid) setting.session ∧
      (∀ place fallback,
        setting.renderValue (pruneValue (some halfSaid)) place fallback setting.session =
        setting.renderValue (some halfSaid) place fallback setting.session) ∧
      (∀ each ∈ Node.chainNodes (pruneChain (some halfSaid)), each.disabled = false) ∧
      ∀ each ∈ Node.chainNodes (pruneValue (some halfSaid)), each.disabled = false := by
  intro setting
  have hsilent : ∀ each ∈ halfSaid.nodes, each.remark = none := by decide
  exact ⟨hsilent, disabled_nodes_are_passed_over sayings {} hsilent setting.session⟩

end BlockSynth
