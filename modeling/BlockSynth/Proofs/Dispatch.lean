import BlockSynth.Described
import BlockSynth.Proofs.Reach
import BlockSynth.Proofs.Zig.Session

/-! # What is dispatched of a stack

The stack of a root is the root and what hangs below it. When a program comes out,
every enabled node of a stack has been reached and has given an emission, so its kind
is known, unless the root gives a value. A value at the root is evaluated for nothing,
and what hangs below it is not looked at, whatever it may be.
-/
namespace BlockSynth

mutual

/-- A node and the nodes that follow it, one after the other. -/
def Node.stack : Node → List Node
  | ⟨id, kind, fields, inputs, statements, next, comment, disabled, mutation⟩ =>
    ⟨id, kind, fields, inputs, statements, next, comment, disabled, mutation⟩ :: followers next
termination_by structural node => node

def followers : Option Node → List Node
  | none => []
  | some node => node.stack
termination_by structural next => next

end

theorem Node.stack_eq (node : Node) : node.stack = node :: followers node.next := by
  cases node
  rfl

/-- The way along a stack to the node at a position. -/
def Node.down (node : Node) (position : Nat) : List Step :=
  (node.stack.take position).map fun above => ⟨above, .next⟩

/-! ### Runs that succeed -/

variable {setting : Setting}

/-- Only nodes of a known kind give an emission. -/
theorem isSome_find?_of_emission {node : Node} {session after : Session} {emission : Emission}
    (h : (node.offer setting).emission session = .ok emission after) :
    (setting.target.catalog.find? node.kind).isSome := by
  cases hfind : setting.target.catalog.find? node.kind with
  | some emitter => rfl
  | none =>
    rw [emission_of_unknown hfind] at h
    cases h

theorem emission_of_lines {node : Node} {session after : Session} {code : String}
    (henabled : node.disabled = false) (h : setting.lines node session = .ok code after) :
    ∃ emission later, (node.offer setting).emission session = .ok emission later := by
  unfold Setting.lines at h
  rw [henabled, if_neg Bool.false_ne_true] at h
  obtain ⟨emission, later, hemission, -⟩ := Synth.ok_of_bind h
  exact ⟨emission, later, hemission⟩

/-- An enabled node that has been reached along a stack, and has given an emission. -/
def Setting.Dispatched (setting : Setting) (root : Node) (session : Session) (position : Nat)
    (node : Node) : Prop :=
  ∃ found emission after, Reaches setting .statement root session (root.down position) node found ∧
    (node.offer setting).emission found = .ok emission after

/-- A chain that is rendered is rendered to its end. -/
theorem dispatched_of_chain {node : Node} {session last : Session} {code : String}
    (h : chainOffer setting (some node) session = .ok code last) {position : Nat} {target : Node}
    (htarget : node.stack[position]? = some target) (henabled : target.disabled = false) :
    setting.Dispatched node session position target := by
  induction position generalizing node session code last with
  | zero =>
    obtain rfl : node = target := by simpa [Node.stack_eq] using htarget
    rw [Setting.chainOffer_lines] at h
    obtain ⟨here, after, hlines, -⟩ := Synth.ok_of_bind h
    obtain ⟨emission, later, hemission⟩ := emission_of_lines henabled hlines
    exact ⟨session, emission, later, .here .statement session henabled, hemission⟩
  | succ position ih =>
    rw [Setting.chainOffer_lines] at h
    obtain ⟨here, after, hlines, hrest⟩ := Synth.ok_of_bind h
    obtain ⟨more, later, hmore, -⟩ := Synth.ok_of_bind hrest
    rw [Node.stack_eq, List.getElem?_cons_succ] at htarget
    cases hnext : node.next with
    | none => simp [hnext, followers] at htarget
    | some child =>
      rw [hnext] at hmore htarget
      obtain ⟨found, emission, final, hreaches, hemission⟩ := ih hmore htarget
      refine ⟨found, emission, final, ?_, hemission⟩
      have hdown : node.down (position + 1) = ⟨node, .next⟩ :: child.down position := by
        unfold Node.down
        rw [node.stack_eq, hnext]
        rfl
      rw [hdown]
      exact .next hlines hnext hreaches

/-! ### Roots -/

/-- A root whose emission is no value is rendered like the chain that it begins. -/
theorem renderRoot_eq_chain {root : Node} {session : Session}
    (h : root.disabled = false → ∀ code rank after,
      (root.offer setting).emission session ≠ .ok (.value code rank) after) :
    setting.renderRoot root session = chainOffer setting (some root) session := by
  by_cases hdisabled : root.disabled = true
  · rw [chainOffer_of_disabled hdisabled]
    unfold Setting.renderRoot
    rw [if_pos hdisabled]
    rfl
  · have henabled : root.disabled = false := by simpa using hdisabled
    rw [chainOffer_some]
    unfold Setting.renderRoot
    rw [if_neg hdisabled, if_neg hdisabled]
    cases hemission : (root.offer setting).emission session with
    | error fault stopped => rw [Synth.bind_of_error hemission, Synth.bind_of_error hemission]
    | ok emission after =>
      rw [Synth.bind_of_ok hemission, Synth.bind_of_ok hemission]
      cases emission with
      | value code rank => exact absurd hemission (h henabled code rank after)
      | statement code => rfl
      | nothing => rfl

/-- A node that is reached from a root and cannot be rendered is a fault of the root. -/
theorem Reaches.renderRoot_fails {root target : Node} {session found stopped : Session}
    {way : List Step} {fault : Fault} (h : Reaches setting .statement root session way target found)
    (hfault : (target.offer setting).emission found = .error fault stopped) :
    ∃ stopped, setting.renderRoot root session = .error fault stopped := by
  have hchain : ∃ stopped, chainOffer setting (some root) session = .error fault stopped :=
    h.fails hfault
  rw [← renderRoot_eq_chain] at hchain
  · exact hchain
  · intro henabled code rank after hvalue
    cases h with
    | here place session henabled =>
      rw [hfault] at hvalue
      simp at hvalue
    | slot place henabled hfind hasks hchild hbehind =>
      obtain ⟨stopped', hask⟩ := hasks.fails hchild (hbehind.fails hfault)
      rw [← emission_of_find? hfind, hvalue] at hask
      simp at hask
    | next hlines hnext hbehind =>
      -- A value has no lines, so nothing is reached behind it.
      unfold Setting.lines at hlines
      rw [henabled, if_neg Bool.false_ne_true, Synth.bind_of_ok hvalue] at hlines
      cases hlines

theorem renderRoots_of_error {before after : List Node} {root : Node}
    {session middle stopped : Session} {codes : List String} {fault : Fault}
    (hbefore : setting.renderRoots before session = .ok codes middle)
    (hroot : setting.renderRoot root middle = .error fault stopped) :
    setting.renderRoots (before ++ root :: after) session = .error fault stopped := by
  induction before generalizing session codes with
  | nil =>
    obtain ⟨-, rfl⟩ := EStateM.Result.ok.inj hbefore
    exact Synth.bind_of_error hroot _
  | cons first rest ih =>
    obtain ⟨code, later, hfirst, hrest⟩ := Synth.ok_of_bind hbefore
    obtain ⟨more, final, hmore, hdone⟩ := Synth.ok_of_bind hrest
    obtain ⟨-, rfl⟩ := EStateM.Result.ok.inj hdone
    refine (Synth.bind_of_ok hfirst _).trans ?_
    exact Synth.bind_of_error (ih hmore) _

/-- The fault of a node that is reached from a root is what becomes of the whole program. -/
theorem Reaches.generate_fails {workspace : Workspace} {before after : List Node}
    {root target : Node} {codes : List String} {session found stopped : Session} {way : List Step}
    {fault : Fault} (h : Reaches setting .statement root session way target found)
    (hroots : workspace.roots = before ++ root :: after)
    (hbefore : setting.renderRoots before (setting.openProgram workspace setting.session) =
      .ok codes session) (hfault : (target.offer setting).emission found = .error fault stopped) :
    setting.generate workspace = .error fault := by
  obtain ⟨last, hroot⟩ := h.renderRoot_fails hfault
  unfold Setting.generate
  rw [hroots, renderRoots_of_error hbefore hroot]

theorem renderRoots_split {before after : List Node}
    {root : Node} {session last : Session} {codes : List String}
    (h : setting.renderRoots (before ++ root :: after) session = .ok codes last) :
    ∃ earlier middle code later, setting.renderRoots before session = .ok earlier middle ∧
      setting.renderRoot root middle = .ok code later := by
  induction before generalizing session codes last with
  | nil =>
    obtain ⟨code, later, hroot, -⟩ := Synth.ok_of_bind h
    exact ⟨[], session, code, later, rfl, hroot⟩
  | cons first rest ih =>
    obtain ⟨code, later, hfirst, hrest⟩ := Synth.ok_of_bind h
    obtain ⟨more, final, hmore, -⟩ := Synth.ok_of_bind hrest
    obtain ⟨earlier, middle, code', later', hearlier, hroot⟩ := ih hmore
    exact ⟨_, middle, code', later', renderRoots_cons hfirst hearlier, hroot⟩

/-- When a program comes out, every enabled node of every stack has been dispatched and is of a
known kind, except below a root that gives a value. -/
theorem stacks_are_dispatched_unless_a_value_begins_them {workspace : Workspace}
    {program : String} (hgenerate : setting.generate workspace = .ok program)
    {before after : List Node} {root : Node} (hroots : workspace.roots = before ++ root :: after) :
    ∃ codes session,
      setting.renderRoots before (setting.openProgram workspace setting.session) =
        .ok codes session ∧
      ((∀ position node, root.stack[position]? = some node → node.disabled = false →
          setting.Dispatched root session position node ∧
          (setting.target.catalog.find? node.kind).isSome) ∨
        root.disabled = false ∧ ∃ code rank later,
          (root.offer setting).emission session = .ok (.value code rank) later) := by
  obtain ⟨all, last, hrun, -⟩ := exists_roots_of_generate hgenerate
  rw [hroots] at hrun
  obtain ⟨codes, session, code, later, hbefore, hroot⟩ := renderRoots_split hrun
  refine ⟨codes, session, hbefore, ?_⟩
  by_cases hvalue : root.disabled = false ∧ ∃ code rank later,
      (root.offer setting).emission session = .ok (.value code rank) later
  · exact .inr hvalue
  · left
    intro position node hnode henabled
    have hchain : setting.renderRoot root session = chainOffer setting (some root) session := by
      apply renderRoot_eq_chain
      intro hroot code rank after hemission
      exact hvalue ⟨hroot, code, rank, after, hemission⟩
    rw [hchain] at hroot
    have hdispatched := dispatched_of_chain hroot hnode henabled
    obtain ⟨found, emission, after, hreaches, hemission⟩ := hdispatched
    exact ⟨⟨found, emission, after, hreaches, hemission⟩, isSome_find?_of_emission hemission⟩

/-- A stack whose root and third node are disabled is dispatched between them and behind them. -/
theorem stack_with_disabled_nodes_is_dispatched :
    let description : Description :=
      { rules := [("note", { shape := .statement, parts := [.literal "note"] })] }
    let setting : Setting := ⟨description.target, {}⟩
    let last : Node := { id := "n4", kind := "note" }
    let third : Node := { id := "n3", kind := "unheard of", disabled := true, next := some last }
    let second : Node := { id := "n2", kind := "note", next := some third }
    let root : Node := { id := "n1", kind := "unheard of", disabled := true, next := some second }
    ∃ program, setting.generate ⟨[], [root]⟩ = .ok program ∧ ∃ session,
      setting.Dispatched root session 1 second ∧ setting.Dispatched root session 3 last := by
  intro description setting last third second root
  obtain ⟨program, hgenerate⟩ : ∃ program, setting.generate ⟨[], [root]⟩ = .ok program := ⟨_, rfl⟩
  obtain ⟨codes, session, hbefore, hstack⟩ :=
    @stacks_are_dispatched_unless_a_value_begins_them setting ⟨[], [root]⟩ program
      hgenerate [] [] root rfl
  refine ⟨program, hgenerate, session, ?_⟩
  rcases hstack with hstack | ⟨hroot, -⟩
  · exact ⟨(hstack 1 second rfl rfl).1, (hstack 3 last rfl rfl).1⟩
  · cases hroot

/-- Below a text that stands at the root a node of an unknown kind goes unnoticed. -/
theorem node_below_text_is_lost :
    let lost : Node := { id := "n2", kind := "mystery" }
    let root : Node := { id := "n1", kind := "text", next := some lost }
    root.stack[1]? = some lost ∧ lost.disabled = false ∧
      (Zig.setting {}).target.catalog.find? lost.kind = none ∧
      ∃ program, (Zig.setting {}).generate ⟨[], [root]⟩ = .ok program := by
  intro lost root
  have hlost : (Zig.setting {}).target.catalog.find? "mystery" = none := by
    rw [Zig.catalog_setting, Zig.find?_catalog (by decide)]
    rfl
  refine ⟨rfl, rfl, hlost, ?_⟩
  let opened := (Zig.setting {}).openProgram ⟨[], [root]⟩ (Zig.setting {}).session
  obtain ⟨code, rank, hemission⟩ : ∃ code rank,
      (root.offer (Zig.setting {})).emission opened = .ok (.value code rank) opened := by
    have hfind : Zig.catalog.find? "text" = some ⟨Zig.textLiteral, false⟩ :=
      (Zig.find?_catalog (by decide)).trans rfl
    rw [@Zig.emission_of_kind {} root "text" _ rfl hfind]
    exact ⟨_, _, rfl⟩
  have hroot := renderRoot_of_value hemission rfl
  have hroots : (Zig.setting {}).renderRoots [root] opened = .ok _ opened :=
    renderRoots_cons hroot rfl
  exact ⟨_, generate_of_roots hroots⟩

end BlockSynth
