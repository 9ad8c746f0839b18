import BlockSynth.Proofs.Catalog
import BlockSynth.Target

/-! # Below a node

The nodes on and below a node, and what it takes for a node to bring no comments into the code.
-/
namespace BlockSynth

namespace Keyed

variable {α : Type}

/-- The entries under other names. -/
def without (name : String) (entries : List (String × α)) : List (String × α) :=
  entries.filter (·.1 ≠ name)

theorem lookup_without_self (name : String) (entries : List (String × α)) :
    (without name entries).lookup name = none := by
  rw [List.lookup_eq_none_iff]
  intro entry hentry
  have hne : entry.1 ≠ name := by simpa using (List.mem_filter.mp hentry).2
  exact bne_iff_ne.mpr hne.symm

theorem lookup_without_of_ne {name other : String}
    (h : other ≠ name) (entries : List (String × α)) :
    (without name entries).lookup other = entries.lookup other := by
  induction entries with
  | nil => rfl
  | cons entry rest ih =>
    unfold without at ih ⊢
    by_cases hname : entry.1 = name
    · have hother : (other == entry.1) = false := beq_false_of_ne (hname ▸ h)
      rw [List.filter_cons_of_neg (by simpa using hname), ih, List.lookup_cons, hother]
    · rw [List.filter_cons_of_pos (by simpa using hname), List.lookup_cons, List.lookup_cons, ih]

end Keyed

namespace Node

/-- The nodes below a node. -/
def descendants (node : Node) : List Node :=
  slotNodes node.inputs ++ slotNodes node.statements ++ chainNodes node.next

theorem nodes_eq (node : Node) : node.nodes = node :: node.descendants := by
  cases node
  rfl

theorem mem_nodes_self (node : Node) : node ∈ node.nodes := by
  rw [nodes_eq]
  exact List.mem_cons_self

theorem mem_slotNodes {each : Node} {slots : List (String × Node)} :
    each ∈ slotNodes slots ↔ ∃ entry ∈ slots, each ∈ entry.2.nodes := by
  induction slots with
  | nil => simp [slotNodes]
  | cons entry rest ih => simp [slotNodes, ih]

theorem mem_chainNodes {each : Node} {first : Option Node} :
    each ∈ chainNodes first ↔ ∃ node ∈ first, each ∈ node.nodes := by
  cases first <;> simp [chainNodes]

theorem mem_nodes {each node : Node} : each ∈ node.nodes ↔
    each = node ∨ (∃ entry ∈ node.inputs, each ∈ entry.2.nodes) ∨
    (∃ entry ∈ node.statements, each ∈ entry.2.nodes) ∨
      ∃ next ∈ node.next, each ∈ next.nodes := by
  rw [nodes_eq, descendants, List.mem_cons, List.mem_append, List.mem_append, mem_slotNodes,
    mem_slotNodes, mem_chainNodes, or_assoc]

/-- What holds of a node and of all that is below it holds so of the nodes directly below it. -/
theorem forall_nodes_iff {fine : Node → Prop} {node : Node} :
    (∀ each ∈ node.nodes, fine each) ↔ fine node ∧
    (∀ entry ∈ node.inputs, ∀ each ∈ entry.2.nodes, fine each) ∧
    (∀ entry ∈ node.statements, ∀ each ∈ entry.2.nodes, fine each) ∧
      ∀ next ∈ node.next, ∀ each ∈ next.nodes, fine each := by
  constructor
  · intro h
    refine ⟨h node node.mem_nodes_self, fun entry hentry each heach => ?_,
      fun entry hentry each heach => ?_, fun next hnext each heach => ?_⟩
    · exact h each (mem_nodes.mpr (.inr (.inl ⟨entry, hentry, heach⟩)))
    · exact h each (mem_nodes.mpr (.inr (.inr (.inl ⟨entry, hentry, heach⟩))))
    · exact h each (mem_nodes.mpr (.inr (.inr (.inr ⟨next, hnext, heach⟩))))
  · rintro ⟨hnode, hinputs, hstatements, hnext⟩ each heach
    rcases mem_nodes.mp heach with rfl | ⟨entry, hentry, heach⟩ | ⟨entry, hentry, heach⟩
      | ⟨next, hmem, heach⟩
    · exact hnode
    · exact hinputs entry hentry each heach
    · exact hstatements entry hentry each heach
    · exact hnext next hmem each heach

theorem nodes_input_subset {node child : Node} {slot : String} (h : node.input slot = some child) :
    child.nodes ⊆ node.nodes :=
  fun _ heach => mem_nodes.mpr (.inr (.inl ⟨(slot, child), Keyed.mem_of_lookup h, heach⟩))

theorem nodes_statement_subset {node child : Node}
    {slot : String} (h : node.statement slot = some child) :
    child.nodes ⊆ node.nodes :=
  fun _ heach => mem_nodes.mpr (.inr (.inr (.inl ⟨(slot, child), Keyed.mem_of_lookup h, heach⟩)))

theorem nodes_next_subset {node child : Node} (h : node.next = some child) :
    child.nodes ⊆ node.nodes :=
  fun _ heach => mem_nodes.mpr (.inr (.inr (.inr ⟨child, h, heach⟩)))

/-! ### Smaller nodes -/

theorem sizeOf_lt_of_mem {slots : List (String × Node)}
    {entry : String × Node} (h : entry ∈ slots) :
    sizeOf entry.2 < sizeOf slots := by
  have hmem := List.sizeOf_lt_of_mem h
  cases entry
  rw [Prod.mk.sizeOf_spec] at hmem
  dsimp only
  omega

theorem sizeOf_inputs_lt (node : Node) : sizeOf node.inputs < sizeOf node := by
  cases node
  rw [mk.sizeOf_spec]
  dsimp only
  omega

theorem sizeOf_statements_lt (node : Node) : sizeOf node.statements < sizeOf node := by
  cases node
  rw [mk.sizeOf_spec]
  dsimp only
  omega

theorem sizeOf_input_lt {node child : Node} {slot : String} (h : node.input slot = some child) :
    sizeOf child < sizeOf node :=
  Nat.lt_trans (sizeOf_lt_of_mem (Keyed.mem_of_lookup h)) node.sizeOf_inputs_lt

theorem sizeOf_statement_lt {node child : Node}
    {slot : String} (h : node.statement slot = some child) :
    sizeOf child < sizeOf node :=
  Nat.lt_trans (sizeOf_lt_of_mem (Keyed.mem_of_lookup h)) node.sizeOf_statements_lt

theorem sizeOf_next_lt {node child : Node} (h : node.next = some child) :
    sizeOf child < sizeOf node := by
  cases node
  subst h
  rw [mk.sizeOf_spec, Option.some.sizeOf_spec]
  omega

/-- What is below a node below a node is below the latter. -/
theorem nodes_subset_of_mem {each node : Node} (h : each ∈ node.nodes) :
    each.nodes ⊆ node.nodes := by
  induction hsize : sizeOf node using Nat.strongRecOn generalizing node with
  | ind size ih =>
    subst hsize
    intro inner hinner
    rcases mem_nodes.mp h with rfl | ⟨entry, hentry, hmem⟩ | ⟨entry, hentry, hmem⟩
      | ⟨next, hnext, hmem⟩
    · exact hinner
    · have hless := Nat.lt_trans (sizeOf_lt_of_mem hentry) node.sizeOf_inputs_lt
      exact mem_nodes.mpr (.inr (.inl ⟨entry, hentry, ih _ hless hmem rfl hinner⟩))
    · have hless := Nat.lt_trans (sizeOf_lt_of_mem hentry) node.sizeOf_statements_lt
      exact mem_nodes.mpr (.inr (.inr (.inl ⟨entry, hentry, ih _ hless hmem rfl hinner⟩)))
    · exact mem_nodes.mpr
        (.inr (.inr (.inr ⟨next, hnext, ih _ (sizeOf_next_lt hnext) hmem rfl hinner⟩)))

/-! ### Comments -/

/-- There is no comment on the node or below it. -/
def Silent (node : Node) : Prop :=
  ∀ each ∈ node.nodes, each.remark = none

variable {node : Node}

theorem silent_iff : node.Silent ↔ node.remark = none ∧ (∀ entry ∈ node.inputs, entry.2.Silent) ∧
    (∀ entry ∈ node.statements, entry.2.Silent) ∧ ∀ next ∈ node.next, next.Silent :=
  forall_nodes_iff

theorem Silent.remarks (h : node.Silent) : node.nodes.filterMap remark = [] :=
  List.filterMap_eq_nil_iff.mpr h

theorem Silent.comments (h : node.Silent) (mark : String) : node.comments mark = "" := by
  obtain ⟨hnode, hinputs, -⟩ := silent_iff.mp h
  have hslots : node.inputs.map (fun slot => Text.prefixLines mark
      (String.join ((slot.2.nodes.filterMap remark).map (· ++ "\n")))) =
        node.inputs.map fun _ => "" :=
    List.map_congr_left fun entry hentry => by
      rw [(hinputs entry hentry).remarks]
      rfl
  have hjoin : ∀ slots : List (String × Node), String.join (slots.map fun _ => "") = "" := by
    intro slots
    induction slots with
    | nil => rfl
    | cons entry rest ih => simpa using ih
  unfold Node.comments
  dsimp only
  rw [hnode, hslots, hjoin]
  rfl

end Node

end BlockSynth
