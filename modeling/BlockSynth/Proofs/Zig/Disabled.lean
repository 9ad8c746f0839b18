import BlockSynth.Proofs.Graph.Node
import BlockSynth.Proofs.Zig.Likeness

/-! # Disabled inputs

A disabled node in a value slot is rendered as an empty slot is. Taking it out of the graph leaves
the program as it is, wherever it stands, unless the emitter of its host looks into the slot itself:
to find out whether the operand of a print statement is text, whether a number of times is plugged
in, or whether there is a value to return.
-/
namespace BlockSynth

/-- The second node is the first one with a disabled input taken out, of the node
itself or of one below it. -/
inductive Node.Clears (may : Node → String → Node → Prop) : Node → Node → Prop
  | here {node child : Node} {slot : String} : node.input slot = some child →
    child.disabled = true →
    may node slot child → Clears may node { node with inputs := Keyed.without slot node.inputs }
  | input {node child copy : Node} {slot : String} {before after : List (String × Node)} :
    node.inputs = before ++ (slot, child) :: after → Clears may child copy →
      Clears may node { node with inputs := before ++ (slot, copy) :: after }
  | branch {node child copy : Node} {slot : String} {before after : List (String × Node)} :
    node.statements = before ++ (slot, child) :: after → Clears may child copy →
      Clears may node { node with statements := before ++ (slot, copy) :: after }
  | next {node child copy : Node} :
    node.next = some child → Clears may child copy → Clears may node { node with next := some copy }

def Workspace.Clears (may : Node → String → Node → Prop) (workspace copy : Workspace) : Prop :=
  ∃ before after root cleared,
    workspace.roots = before ++ root :: after ∧ Node.Clears may root cleared ∧
    copy = { workspace with roots := before ++ cleared :: after }

/-- With one entry replaced, a list answers as before, or with the new entry where it
had the old one. -/
theorem Keyed.lookup_replace {α : Type} (before after : List (String × α))
    (slot name : String) (old new : α) :
    (before ++ (slot, new) :: after).lookup name = (before ++ (slot, old) :: after).lookup name ∨
      (before ++ (slot, old) :: after).lookup name = some old ∧
        (before ++ (slot, new) :: after).lookup name = some new := by
  rw [List.lookup_append, List.lookup_append]
  cases before.lookup name with
  | some found => exact .inl rfl
  | none =>
    rw [Option.none_or, Option.none_or, List.lookup_cons, List.lookup_cons]
    cases name == slot with
    | true => exact .inr ⟨rfl, rfl⟩
    | false => exact .inl rfl

namespace Node.Clears

variable {may : Node → String → Node → Prop} {node copy : Node}

theorem id_eq (h : Clears may node copy) : copy.id = node.id := by
  cases h <;> rfl

theorem kind_eq (h : Clears may node copy) : copy.kind = node.kind := by
  cases h <;> rfl

theorem fields_eq (h : Clears may node copy) : copy.fields = node.fields := by
  cases h <;> rfl

theorem mutation_eq (h : Clears may node copy) : copy.mutation = node.mutation := by
  cases h <;> rfl

theorem disabled_eq (h : Clears may node copy) : copy.disabled = node.disabled := by
  cases h <;> rfl

/-- Comments come with nodes, and no node is added. -/
theorem silent (h : Clears may node copy) (hsilent : node.Silent) : copy.Silent := by
  induction h with
  | @here node child slot _ _ _ =>
    obtain ⟨hremark, hinputs, hbranches, hnext⟩ := silent_iff.mp hsilent
    refine silent_iff.mpr ⟨hremark, fun entry hentry => ?_, hbranches, hnext⟩
    exact hinputs entry (List.mem_of_mem_filter hentry)
  | @input node child copy slot before after heq _ ih =>
    obtain ⟨hremark, hinputs, hbranches, hnext⟩ := silent_iff.mp hsilent
    rw [heq, List.forall_mem_append, List.forall_mem_cons] at hinputs
    refine silent_iff.mpr ⟨hremark, ?_, hbranches, hnext⟩
    rw [List.forall_mem_append, List.forall_mem_cons]
    exact ⟨hinputs.1, ih hinputs.2.1, hinputs.2.2⟩
  | @branch node child copy slot before after heq _ ih =>
    obtain ⟨hremark, hinputs, hbranches, hnext⟩ := silent_iff.mp hsilent
    rw [heq, List.forall_mem_append, List.forall_mem_cons] at hbranches
    refine silent_iff.mpr ⟨hremark, hinputs, ?_, hnext⟩
    rw [List.forall_mem_append, List.forall_mem_cons]
    exact ⟨hbranches.1, ih hbranches.2.1, hbranches.2.2⟩
  | @next node child copy heq _ ih =>
    obtain ⟨hremark, hinputs, hbranches, hnext⟩ := silent_iff.mp hsilent
    refine silent_iff.mpr ⟨hremark, hinputs, hbranches, fun next hmem => ?_⟩
    obtain rfl := Option.some.inj hmem
    exact ih (hnext child heq)

/-- What has become of the inputs: each is as it was, or was cleared itself, or was
disabled and is gone. -/
theorem input_cases (h : Clears may node copy) (slot : String) :
    copy.input slot = node.input slot ∨
      (∃ child cleared,
        node.input slot = some child ∧ copy.input slot = some cleared ∧ Clears may child cleared) ∨
      ∃ child, node.input slot = some child ∧ child.disabled = true ∧ copy.input slot = none ∧
        may node slot child := by
  cases h with
  | @here _ child name hchild hdisabled hmay =>
    by_cases hname : slot = name
    · subst hname
      exact .inr (.inr ⟨child, hchild, hdisabled, Keyed.lookup_without_self slot node.inputs, hmay⟩)
    · exact .inl (Keyed.lookup_without_of_ne hname node.inputs)
  | @input _ child cleared name before after heq hclears =>
    unfold Node.input
    rw [heq]
    rcases Keyed.lookup_replace before after name slot child cleared with hsame | ⟨hold, hnew⟩
    · exact .inl hsame
    · exact .inr (.inl ⟨child, cleared, hold, hnew, hclears⟩)
  | branch => exact .inl rfl
  | next => exact .inl rfl

theorem statement_cases (h : Clears may node copy) (slot : String) :
    copy.statement slot = node.statement slot ∨
      ∃ child cleared, node.statement slot = some child ∧ copy.statement slot = some cleared ∧
        Clears may child cleared := by
  cases h with
  | @branch _ child cleared name before after heq hclears =>
    unfold Node.statement
    rw [heq]
    rcases Keyed.lookup_replace before after name slot child cleared with hsame | ⟨hold, hnew⟩
    · exact .inl hsame
    · exact .inr ⟨child, cleared, hold, hnew, hclears⟩
  | here => exact .inl rfl
  | input => exact .inl rfl
  | next => exact .inl rfl

theorem next_cases (h : Clears may node copy) : copy.next = node.next ∨
    ∃ child cleared, node.next = some child ∧ copy.next = some cleared ∧
      Clears may child cleared := by
  cases h with
  | next heq hclears => exact .inr ⟨_, _, heq, rfl, hclears⟩
  | _ => exact .inl rfl

end Node.Clears

namespace Zig

/-- The host of an input notices that it is there, though it is disabled. -/
def Noticed (host : Node) (slot : String) (child : Node) : Prop :=
  host.kind = "text_print" ∧ slot = "TEXT" ∧ producesText child = false ∨
    host.kind = "controls_repeat" ∧ slot = "TIMES" ∨
    host.kind = "procedures_ifreturn" ∧ slot = "VALUE" ∧ host.mutation.hasReturn = false

def Overlooked (host : Node) (slot : String) (child : Node) : Prop :=
  ¬Noticed host slot child

instance (host : Node) (slot : String) (child : Node) : Decidable (Noticed host slot child) :=
  inferInstanceAs (Decidable (_ ∨ _ ∨ _))

instance (host : Node) (slot : String) (child : Node) : Decidable (Overlooked host slot child) :=
  inferInstanceAs (Decidable (¬_))

variable {config : Config} {node copy : Node}

/-- The copy answers as the node does, wherever it stands. -/
structure AnswersAlike (config : Config) (node copy : Node) : Prop where
  value : ∀ place,
    valueOffer (setting config) place (some copy) = valueOffer (setting config) place (some node)
  chain : chainOffer (setting config) (some copy) = chainOffer (setting config) (some node)
  root : (setting config).renderRoot copy = (setting config).renderRoot node

theorem producesText_cleared {may : Node → String → Node → Prop} (h : Node.Clears may node copy) :
    producesText copy = producesText node := by
  simp only [producesText, Node.fieldText, Node.field, h.kind_eq, h.fields_eq]

/-- No emitter can tell a node from what it is without an input that it overlooks. -/
theorem likeness_cleared (h : Node.Clears Overlooked node copy) (hsilent : node.Silent) :
    Likeness (Fault.renamed id) id config node copy where
  kind := h.kind_eq
  fields := h.fields_eq
  mutation := h.mutation_eq
  before := congrArg _ h.id_eq
  after := congrArg _ h.id_eq
  trap := congrArg _ h.id_eq
  comments := by rw [hsilent.comments, (h.silent hsilent).comments]
  fault field := by
    simp only [Fault.ofOption, Node.field, h.kind_eq, h.id_eq, h.fields_eq]
    rfl
  replay _ := rfl
  otherwise := by
    rcases h.statement_cases "ELSE" with hsame | ⟨child, cleared, hchild, hcleared, -⟩
    · rw [hsame]
    · rw [hchild, hcleared]
      rfl
  times hkind := by
    rcases h.input_cases "TIMES" with hsame | ⟨child, cleared, hchild, hcleared, -⟩
      | ⟨child, -, -, -, hmay⟩
    · rw [hsame]
    · rw [hchild, hcleared]
      rfl
    · exact absurd (.inr (.inl ⟨hkind, rfl⟩)) hmay
  text hkind := by
    rcases h.input_cases "TEXT" with hsame | ⟨child, cleared, hchild, hcleared, hclears⟩ |
      ⟨child, hchild, -, hcopy, hmay⟩
    · rw [hsame]
    · rw [hchild, hcleared, Option.all_some, Option.all_some, producesText_cleared hclears]
    · have htext : producesText child = true := by
        by_contra hnot
        exact hmay (.inl ⟨hkind, rfl, by simpa using hnot⟩)
      rw [hchild, hcopy, Option.all_some, htext]
      rfl
  result hkind hreturn := by
    rcases h.input_cases "VALUE" with hsame | ⟨child, cleared, hchild, hcleared, -⟩
      | ⟨child, -, -, -, hmay⟩
    · rw [hsame]
    · rw [hchild, hcleared]
      rfl
    · exact absurd (.inr (.inr ⟨hkind, rfl, hreturn⟩)) hmay

open Synth (Copies copies_id)

/-- Clearing a node of an overlooked input changes no answer. The induction is on the node, as one
input, branch or follower of it is cleared in turn. -/
theorem answersAlike_cleared {node copy : Node}
    (h : Node.Clears Overlooked node copy) (hsilent : node.Silent) :
    AnswersAlike config node copy := by
  have hresembles := (@likeness_cleared config _ _ h hsilent).resembles h.id_eq h.disabled_eq
  obtain ⟨-, hinputs, hbranches, hnexts⟩ := Node.silent_iff.mp hsilent
  have hemission : Copies id (node.offer (setting config)).emission
      (copy.offer (setting config)).emission := by
    refine hresembles.emission (fun _ => rfl) (fun slot place => copies_id.mpr ?_) fun slot =>
      copies_id.mpr ?_
    · rcases h.input_cases slot with hsame | ⟨child, cleared, hchild, hcleared, hclears⟩ |
        ⟨child, hchild, hdisabled, hcopy, -⟩
      · rw [hsame]
      · have hsmaller := Node.sizeOf_input_lt hchild
        rw [hchild, hcleared]
        exact (answersAlike_cleared hclears
          (hinputs (slot, child) (Keyed.mem_of_lookup hchild))).value place
      · rw [hchild, hcopy, valueOffer_of_disabled hdisabled]
        rfl
    · rcases h.statement_cases slot with hsame | ⟨child, cleared, hchild, hcleared, hclears⟩
      · rw [hsame]
      · have hsmaller := Node.sizeOf_statement_lt hchild
        rw [hchild, hcleared]
        exact (answersAlike_cleared hclears
          (hbranches (slot, child) (Keyed.mem_of_lookup hchild))).chain
  have hnext : Copies id (chainOffer (setting config) node.next)
      (chainOffer (setting config) copy.next) := by
    refine copies_id.mpr ?_
    rcases h.next_cases with hsame | ⟨child, cleared, hchild, hcleared, hclears⟩
    · rw [hsame]
    · have hsmaller := Node.sizeOf_next_lt hchild
      rw [hchild, hcleared]
      exact (answersAlike_cleared hclears (hnexts child hchild)).chain
  exact ⟨fun place => copies_id.mp (hresembles.value hemission place),
    copies_id.mp (hresembles.chain hemission hnext),
    copies_id.mp (hresembles.renderRoot hemission hnext)⟩
termination_by sizeOf node

theorem opening_cleared {may : Node → String → Node → Prop} {workspace copy : Workspace}
    (h : workspace.Clears may copy) : opening copy = opening workspace := by
  obtain ⟨before, after, root, cleared, hroots, hclears, rfl⟩ := h
  have hname : definedName cleared = definedName root := by
    simp only [definedName, Node.fieldText, Node.field, hclears.kind_eq, hclears.fields_eq]
  funext ledger
  unfold opening
  dsimp only
  rw [hroots, List.filterMap_append, List.filterMap_append, List.filterMap_cons,
    List.filterMap_cons, hname]

/-- A workspace without comments has the same program, or the same fault, without a
disabled input that its host overlooks. -/
theorem overlooked_inputs_are_invisible {workspace copy : Workspace}
    (hsilent : ∀ node ∈ workspace.nodes, node.remark = none)
    (hclears : workspace.Clears Overlooked copy) :
    (setting config).generate copy = (setting config).generate workspace := by
  have hopening := opening_cleared hclears
  obtain ⟨before, after, root, cleared, hroots, hroot, rfl⟩ := hclears
  have hmem : root ∈ workspace.roots := by simp [hroots]
  have halike : AnswersAlike config root cleared :=
    answersAlike_cleared hroot fun each heach =>
      hsilent each (List.mem_flatMap.mpr ⟨root, hmem, heach⟩)
  have hsame : ∀ roots : List Node, List.Forall₂
      (fun root copy => (setting config).renderRoot copy = (setting config).renderRoot root)
        roots roots :=
    fun roots => List.forall₂_same.mpr fun _ _ => rfl
  refine generate_congr hopening ?_
  rw [hroots]
  exact List.rel_append (hsame before) (.cons halike.root (hsame after))

/-- A print statement with a disabled operand of the given kind. -/
def printing (kind : String) : Node :=
  { kind := "text_print", inputs := [("TEXT", { kind, disabled := true })] }

def printingNothing : Node :=
  { kind := "text_print" }

theorem clears_printing (may : Node → String → Node → Prop) (kind : String)
    (h : may (printing kind) "TEXT" { kind, disabled := true }) :
    Node.Clears may (printing kind) printingNothing :=
  @Node.Clears.here may (printing kind) { kind, disabled := true } "TEXT" rfl rfl h

/-- A disabled text inside a branch is invisible. -/
theorem overlooked_text_in_branch_is_invisible :
    let workspace : Workspace :=
      ⟨[], [{ kind := "controls_if", statements := [("DO0", printing "text")] }]⟩
    let copy : Workspace :=
      ⟨[], [{ kind := "controls_if", statements := [("DO0", printingNothing)] }]⟩
    (∀ node ∈ workspace.nodes, node.remark = none) ∧ workspace.Clears Overlooked copy ∧
      (setting {}).generate copy = (setting {}).generate workspace := by
  intro workspace copy
  have hsilent : ∀ node ∈ workspace.nodes, node.remark = none := by decide
  have hprint : Node.Clears Overlooked (printing "text") printingNothing :=
    clears_printing Overlooked "text" (by decide)
  have hclears : workspace.Clears Overlooked copy :=
    ⟨[], [], _, _, rfl, @Node.Clears.branch _ _ _ _ "DO0" [] [] rfl hprint, rfl⟩
  exact ⟨hsilent, hclears, overlooked_inputs_are_invisible hsilent hclears⟩

/-- The import that a print statement needs, and the statement without an operand. -/
def stdImport : String :=
  "const std = @import(\"std\");"

def printCode (specifier : String) : String :=
  s!"std.debug.print(\"{specifier}\\n\", .\x7b \"\" \x7d);\n"

theorem generate_printing {root : Node} {specifier : String} (hkind : root.kind = "text_print")
    (henabled : root.disabled = false) (hlast : root.next = none)
    (hcomments : (setting {}).comments root = "") (hcode : printCode specifier ≠ "")
    (hrun : ∀ session, (setting {}).ask root (print {} root) session =
      .ok (.statement (printCode specifier))
      { session with toLedger := session.require "std" stdImport }) :
    (setting {}).generate ⟨[], [root]⟩ =
      .ok (Text.tidy (assemble {} [stdImport] [] (printCode specifier))) := by
  have hfind : catalog.find? "text_print" = some ⟨print, false⟩ :=
    (find?_catalog (by decide)).trans rfl
  have hemission := hrun ((setting {}).openProgram ⟨[], [root]⟩ (setting {}).session)
  rw [← @emission_of_kind {} root "text_print" ⟨print, false⟩ hkind hfind] at hemission
  have hstatement : Emission.asStatement (setting {}) root (.statement (printCode specifier)) =
      .ok (printCode specifier) := by
    unfold Emission.asStatement
    rw [catalog_setting, hkind, hfind, hcomments]
    show Except.ok ("" ++ ("" ++ printCode specifier ++ "")) = _
    rw [String.empty_append, String.empty_append, String.append_empty]
  have hroot := renderRoot_of_statement hemission henabled hlast hstatement
  have hroots : (setting {}).renderRoots [root]
      ((setting {}).openProgram ⟨[], [root]⟩ (setting {}).session) =
      .ok _ _ := renderRoots_cons hroot rfl
  rw [@generate_of_roots _ ⟨[], [root]⟩ _ _ hroots, if_neg hcode]
  rfl

/-- A disabled number as the operand of a print statement changes its format. -/
theorem disabled_number_is_visible :
    let workspace : Workspace := ⟨[], [printing "math_number"]⟩
    let copy : Workspace := ⟨[], [printingNothing]⟩
    (∀ node ∈ workspace.nodes, node.remark = none) ∧ workspace.Clears (fun _ _ _ => True) copy ∧
      (setting {}).generate copy ≠ (setting {}).generate workspace := by
  intro workspace copy
  have hwith : (setting {}).generate workspace = _ :=
    @generate_printing (printing "math_number") "\x7bany\x7d" rfl rfl rfl rfl
      (by decide +kernel) fun _ => rfl
  have hwithout : (setting {}).generate copy = _ :=
    @generate_printing printingNothing "\x7bs\x7d" rfl rfl rfl rfl (by decide +kernel) fun _ => rfl
  refine ⟨by decide, ⟨[], [], _, _, rfl, clears_printing _ "math_number" trivial, rfl⟩, ?_⟩
  rw [hwith, hwithout]
  intro h
  exact absurd (Except.ok.inj h) (by decide +kernel)

end Zig

end BlockSynth
