import BlockSynth.Fault
import BlockSynth.Graph.Workspace
import BlockSynth.Proofs.Graph.Node

/-! # Nodes without comments

A node is silenced by taking away its comment and those of all nodes below it. Nothing else of it
changes, so it has the same kind, fields and slots, and is reported in the same faults.
-/
namespace BlockSynth

mutual

/-- The node without its comment and those of all nodes below it. -/
def Node.silenced : Node → Node
  | ⟨id, kind, fields, inputs, statements, next, _, disabled, mutation⟩ =>
    ⟨id, kind, fields, silencedSlots inputs, silencedSlots statements, silencedChain next, none,
      disabled, mutation⟩
termination_by structural node => node

def silencedSlots : List (String × Node) → List (String × Node)
  | [] => []
  | (slot, node) :: rest => (slot, node.silenced) :: silencedSlots rest
termination_by structural slots => slots

def silencedChain : Option Node → Option Node
  | none => none
  | some node => some node.silenced
termination_by structural first => first

end

def Workspace.silenced (workspace : Workspace) : Workspace :=
  { workspace with roots := workspace.roots.map Node.silenced }

theorem lookup_silencedSlots (slots : List (String × Node)) (slot : String) :
    (silencedSlots slots).lookup slot = (slots.lookup slot).map Node.silenced := by
  induction slots with
  | nil => rfl
  | cons entry rest ih =>
    obtain ⟨name, node⟩ := entry
    rw [silencedSlots, List.lookup_cons, List.lookup_cons]
    cases slot == name with
    | true => rfl
    | false => exact ih

namespace Node

variable (node : Node)

theorem silenced_eq : node.silenced =
    { node with
      inputs := silencedSlots node.inputs
      statements := silencedSlots node.statements
      next := silencedChain node.next
      comment := none } := by
  cases node
  rfl

@[simp] theorem silenced_id : node.silenced.id = node.id := by rw [silenced_eq]

@[simp] theorem silenced_kind : node.silenced.kind = node.kind := by rw [silenced_eq]

@[simp] theorem silenced_mutation : node.silenced.mutation = node.mutation := by rw [silenced_eq]

@[simp] theorem silenced_disabled : node.silenced.disabled = node.disabled := by rw [silenced_eq]

@[simp] theorem silenced_next : node.silenced.next = silencedChain node.next := by rw [silenced_eq]

@[simp] theorem silenced_field (name : String) : node.silenced.field name = node.field name := by
  rw [silenced_eq]
  rfl

@[simp] theorem silenced_fieldText (name : String) :
    node.silenced.fieldText name = node.fieldText name := by
  simp only [fieldText, silenced_field]

@[simp] theorem silenced_fieldNumber (name : String) :
    node.silenced.fieldNumber name = node.fieldNumber name := by
  simp only [fieldNumber, silenced_field]

@[simp] theorem silenced_fieldBool (name : String) :
    node.silenced.fieldBool name = node.fieldBool name := by
  simp only [fieldBool, silenced_field]

@[simp] theorem silenced_input (slot : String) :
    node.silenced.input slot = (node.input slot).map silenced := by
  rw [silenced_eq]
  exact lookup_silencedSlots node.inputs slot

@[simp] theorem silenced_statement (slot : String) :
    node.silenced.statement slot = (node.statement slot).map silenced := by
  rw [silenced_eq]
  exact lookup_silencedSlots node.statements slot

@[simp] theorem ofKind_silenced : Fault.ofKind node.silenced = Fault.ofKind node := by
  simp only [Fault.ofKind, silenced_kind, silenced_id]

@[simp] theorem ofOption_silenced (field : String) :
    Fault.ofOption node.silenced field = Fault.ofOption node field := by
  simp only [Fault.ofOption, silenced_kind, silenced_id, silenced_field]

@[simp] theorem ofShape_silenced (expected : Shape) :
    Fault.ofShape node.silenced expected = Fault.ofShape node expected := by
  simp only [Fault.ofShape, silenced_kind, silenced_id]

mutual

theorem silent_silenced (node : Node) : node.silenced.Silent := by
  obtain ⟨id, kind, fields, inputs, statements, next, comment, disabled, mutation⟩ := node
  exact silent_iff.mpr ⟨rfl, silent_silencedSlots inputs, silent_silencedSlots statements,
    silent_silencedChain next⟩
termination_by structural node

theorem silent_silencedSlots (slots : List (String × Node)) :
    ∀ entry ∈ silencedSlots slots, entry.2.Silent := by
  cases slots with
  | nil => exact List.forall_mem_nil _
  | cons entry rest =>
    obtain ⟨slot, node⟩ := entry
    exact List.forall_mem_cons.mpr ⟨silent_silenced node, silent_silencedSlots rest⟩
termination_by structural slots

theorem silent_silencedChain (first : Option Node) : ∀ next ∈ silencedChain first, next.Silent := by
  cases first with
  | none => simp [silencedChain]
  | some node =>
    rintro next hnext
    obtain rfl := Option.some.inj hnext
    exact silent_silenced node
termination_by structural first

end

@[simp] theorem comments_silenced (mark : String) : node.silenced.comments mark = "" :=
  (silent_silenced node).comments mark

end Node

end BlockSynth
