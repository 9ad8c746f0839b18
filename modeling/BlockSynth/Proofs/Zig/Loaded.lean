import BlockSynth.Proofs.Graph.Document
import BlockSynth.Proofs.Graph.Settle
import BlockSynth.Proofs.Json.Yield
import BlockSynth.Proofs.Number.Literal
import BlockSynth.Proofs.Zig.Temperate

/-! # Numbers of loaded graphs

The numbers in the fields of a document are read as decimals, and so is a text that stands for a
number. So the nodes of a loaded graph have no numbers but doubles, each of them in its one form.
-/
namespace BlockSynth

open Json

/-! ### Fields -/

theorem isDouble_toBinary64 (decimal : Decimal) : Zig.IsDouble decimal.toBinary64 := by
  cases hvalue : decimal.toBinary64 with
  | finite negative significand exponent => exact Binary64.canonical_toBinary64 decimal hvalue
  | infinite negative => trivial
  | nan => trivial

theorem isDouble_of_ofText? {text : String} {number : Binary64}
    (h : Binary64.ofText? text = some number) :
    Zig.IsDouble number := by
  unfold Binary64.ofText? at h
  dsimp only at h
  split at h
  · obtain rfl := Option.some.inj h
    trivial
  · split at h
    · obtain rfl := Option.some.inj h
      trivial
    · split at h
      · cases h
      · obtain ⟨exponent, -, rfl⟩ := Option.map_eq_some_iff.mp h
        exact isDouble_toBinary64 _

def Field.IsDouble : Field → Prop
  | .number value => Zig.IsDouble value
  | _ => True

theorem Field.yields_ofJson (depth : Nat) : Yields Field.IsDouble (Field.ofJson depth) := by
  intro json field hrun
  unfold Field.ofJson at hrun
  split at hrun
  · obtain rfl := Except.ok.inj hrun
    trivial
  · split at hrun
    · obtain rfl := Except.ok.inj hrun
      exact isDouble_toBinary64 _
    · cases hrun
  · obtain rfl := Except.ok.inj hrun
    trivial
  · obtain ⟨-, -, hthrow⟩ := exists_of_bind_ok hrun
    cases hthrow

/-! ### Nodes -/

namespace Node

/-- Fields of doubles, on a node and below it. -/
def InDoubles (node : Node) : Prop :=
  ∀ each ∈ node.nodes, ∀ entry ∈ each.fields, entry.2.IsDouble

theorem inDoubles_iff {node : Node} : node.InDoubles ↔ (∀ entry ∈ node.fields, entry.2.IsDouble) ∧
    (∀ entry ∈ node.inputs, entry.2.InDoubles) ∧ (∀ entry ∈ node.statements, entry.2.InDoubles) ∧
      ∀ next ∈ node.next, next.InDoubles :=
  forall_nodes_iff

theorem isDouble_of_fieldNumber {node : Node} (h : ∀ entry ∈ node.fields, entry.2.IsDouble)
    {name : String} {number : Binary64} (hnumber : node.fieldNumber name = some number) :
    Zig.IsDouble number := by
  unfold Node.fieldNumber at hnumber
  split at hnumber
  · rename_i value hfield
    obtain rfl := Option.some.inj hnumber
    exact h _ (Keyed.mem_of_lookup hfield)
  · exact isDouble_of_ofText? hnumber
  · cases hnumber

theorem keeps_members (depth : Nat) {slots : Option (Json → Except Defect Node)}
    {next : Json → Except Defect Node}
    (hslots : ∀ decode ∈ slots, Yields InDoubles decode) (hnext : Yields InDoubles next) :
    ∀ member ∈ members depth slots next, member.Keeps InDoubles := by
  have hfields : Yields (fun found : List (String × Field) => ∀ entry ∈ found, entry.2.IsDouble)
      (asMap (inside Field.ofJson depth)) :=
    Yields.asMap (forall_mem_inside Field.yields_ofJson depth)
  simp only [members, List.forall_mem_cons]
  refine ⟨?_, ?_, ?_, ?_, ?_, ?_, ?_, ?_, ?_, List.forall_mem_nil _⟩
  case refine_3 =>
    refine Member.keeps_of hfields fun fields node hvalue hnode => ?_
    rw [inDoubles_iff] at hnode ⊢
    exact ⟨hvalue, hnode.2⟩
  case refine_4 =>
    refine Member.keeps_of (Yields.asMap hslots) fun inputs node hvalue hnode => ?_
    rw [inDoubles_iff] at hnode ⊢
    exact ⟨hnode.1, hvalue, hnode.2.2⟩
  case refine_5 =>
    refine Member.keeps_of (Yields.asMap hslots) fun statements node hvalue hnode => ?_
    rw [inDoubles_iff] at hnode ⊢
    exact ⟨hnode.1, hnode.2.1, hvalue, hnode.2.2.2⟩
  case refine_6 =>
    refine Member.keeps_of (Yields.asOption hnext) fun next node hvalue hnode => ?_
    rw [inDoubles_iff] at hnode ⊢
    exact ⟨hnode.1, hnode.2.1, hnode.2.2.1, hvalue⟩
  all_goals
    refine Member.keeps_of (yields_true _) fun value node _ hnode => ?_
    rw [inDoubles_iff] at hnode ⊢
    exact hnode

theorem inDoubles_empty : InDoubles {} :=
  inDoubles_iff.mpr ⟨by simp, by simp, by simp, by simp⟩

theorem yields_ofJson (depth : Nat) : Yields InDoubles (Node.ofJson depth) := by
  induction depth using Nat.strongRecOn with
  | ind depth ih =>
    match depth, ih with
    | 0, _ =>
      exact Yields.asRecord (fun known hknown => absurd hknown (Option.not_mem_none _))
        .ignored inDoubles_empty
    | 1, ih =>
      have hkeeps :=
        @keeps_members 0 none _ (fun decode hdecode => absurd hdecode (Option.not_mem_none _))
        (ih 0 (by omega))
      exact Yields.asRecord (fun known hknown => Option.mem_some_iff.mp hknown ▸ hkeeps)
        .ignored inDoubles_empty
    | inner + 2, ih =>
      have hslots : ∀ decode ∈ some (Node.ofJson inner), Yields InDoubles decode := by
        intro decode hdecode
        obtain rfl := Option.mem_some_iff.mp hdecode
        exact ih inner (by omega)
      have hkeeps := keeps_members (inner + 1) hslots (ih (inner + 1) (by omega))
      exact Yields.asRecord (fun known hknown => Option.mem_some_iff.mp hknown ▸ hkeeps)
        .ignored inDoubles_empty

end Node

/-! ### Graphs -/

theorem Workspace.yields_ofJson (depth : Nat) :
    Yields (fun workspace => ∀ root ∈ workspace.roots, root.InDoubles)
      (Workspace.ofJson depth) := by
  refine Yields.asRecord (forall_mem_inside (fun depth => ?_) depth) .ignored
    (List.forall_mem_nil _)
  have hroots := Yields.asList (forall_mem_inside Node.yields_ofJson depth)
  simp only [Workspace.members, List.forall_mem_cons]
  refine ⟨?_, ?_, List.forall_mem_nil _⟩
  · exact Member.keeps_of (yields_true _) fun _ _ _ hworkspace => hworkspace
  · exact Member.keeps_of hroots fun roots workspace hvalue _ => hvalue

/-- Giving ids changes no field. -/
theorem Workspace.exists_fields_of_settle {workspace settled : Workspace}
    (h : workspace.settle = .ok settled) {node : Node} (hnode : node ∈ settled.nodes) :
    ∃ other ∈ workspace.nodes, other.fields = node.fields := by
  obtain ⟨-, rfl⟩ := Workspace.settle_eq_ok_iff.mp h
  obtain ⟨root, hroot, hbelow⟩ := List.mem_flatMap.mp hnode
  obtain ⟨other, hother, hsame⟩ : ∃ other ∈ workspace.roots, other.anonymous = root.anonymous := by
    have hmem := List.mem_map_of_mem (f := Node.anonymous) hroot
    rw [Node.settleAll_anonymous] at hmem
    exact List.mem_map.mp hmem
  have hshown : node.anonymous ∈ other.nodes.map Node.anonymous := by
    rw [← Node.nodes_anonymous, hsame, Node.nodes_anonymous]
    exact List.mem_map_of_mem hbelow
  obtain ⟨found, hfound, hfields⟩ := List.mem_map.mp hshown
  refine ⟨found, List.mem_flatMap.mpr ⟨other, hother, hfound⟩, ?_⟩
  have hsame := congrArg Node.fields hfields
  rwa [Node.anonymous_eq, Node.anonymous_eq] at hsame

/-- No node of a loaded graph has another number than a double, on it or below it. -/
theorem Workspace.ofDoubles_of_load {document : Document}
    {workspace : Workspace} (h : Workspace.load document = .ok workspace) :
    ∀ node ∈ workspace.nodes, Zig.OfDoubles node := by
  obtain ⟨found, hfound, hsettle⟩ : ∃ found,
      Workspace.ofJson depthLimit document.value = .ok found ∧
      found.settle = .ok workspace := by
    obtain ⟨value, trailing⟩ := document
    cases trailing with
    | false => exact Workspace.load_eq_ok_iff.mp h
    | true =>
      unfold Workspace.load Document.decode at h
      cases hvalue : Workspace.ofJson depthLimit value with
      | error defect =>
        rw [hvalue] at h
        cases h
      | ok found =>
        rw [hvalue] at h
        cases h
  have hroots := Workspace.yields_ofJson depthLimit document.value found hfound
  intro node hnode each heach number hnumber
  obtain ⟨root, hroot, hbelow⟩ := List.mem_flatMap.mp hnode
  have hmem : each ∈ workspace.nodes :=
    List.mem_flatMap.mpr ⟨root, hroot, Node.nodes_subset_of_mem hbelow heach⟩
  obtain ⟨other, hother, hfields⟩ := Workspace.exists_fields_of_settle hsettle hmem
  obtain ⟨root, hroot, hbelow⟩ := List.mem_flatMap.mp hother
  exact Node.isDouble_of_fieldNumber (hfields ▸ hroots root hroot other hbelow) hnumber

end BlockSynth
