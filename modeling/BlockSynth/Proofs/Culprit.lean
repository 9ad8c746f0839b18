import BlockSynth.Proofs.Graph.Node
import BlockSynth.Proofs.Reach

/-! # The node that a fault names

A fault is raised where an emission is asked for: by the script of a node, for want of
a script, or by the slot or chain that the emission does not fit. In each case the
node that it names is the one whose emission it is. The induction is on the size of
nodes, and carries along where each of them stands.
-/
namespace BlockSynth

namespace Workspace

/-- The node stands in a value slot. -/
def InSlot (workspace : Workspace) (node : Node) : Prop :=
  ∃ parent ∈ workspace.nodes, ∃ slot, parent.input slot = some node

/-- The node stands on a chain of statements, behind a root or in a statement slot. -/
inductive OnChain (workspace : Workspace) : Node → Prop
  | behind {root node : Node} : root ∈ workspace.roots → root.next = some node →
    OnChain workspace node
  | slot {parent node : Node} {slot : String} :
    parent ∈ workspace.nodes → parent.statement slot = some node → OnChain workspace node
  | next {node after : Node} : OnChain workspace node → node.next = some after →
    OnChain workspace after

end Workspace

/-- In some session the node gives this emission. -/
def Setting.Emits (setting : Setting) (node : Node) (emission : Emission) : Prop :=
  ∃ session after, (node.offer setting).emission session = .ok emission after

/-- The fault names the node by its kind and id, and what it says about it is so. -/
inductive Culprit (setting : Setting) (workspace : Workspace) (node : Node) : Fault → Prop
  | kind : setting.target.catalog.find? node.kind = none →
    Culprit setting workspace node (.unhandledKind node.kind node.id)
  | option (field : String) : Culprit setting workspace node
    (.unhandledOption node.kind node.id field (((node.field field).map Field.display).getD ""))
  | value {emission : Emission} : workspace.InSlot node → setting.Emits node emission →
    (∀ code rank, emission ≠ .value code rank) →
    Culprit setting workspace node (.wrongShape node.kind node.id .value)
  | statement {code : String} {rank : Rank} : workspace.OnChain node →
    setting.Emits node (.value code rank) →
    Culprit setting workspace node (.wrongShape node.kind node.id .statement)

/-- An enabled node of the workspace is to blame for the fault. -/
def Setting.Blames (setting : Setting) (workspace : Workspace) (fault : Fault) : Prop :=
  ∃ node ∈ workspace.nodes, node.disabled = false ∧ Culprit setting workspace node fault

/-! ### Steps -/

namespace Synth

variable {α β : Type} {culprit : Fault → Prop}

/-- All faults that the step throws are of this kind. -/
def Throws (culprit : Fault → Prop) (step : Synth α) : Prop :=
  ∀ session fault stopped, step session = .error fault stopped → culprit fault

theorem Throws.pure (answer : α) : Throws culprit (Pure.pure answer) := by
  intro session fault stopped hrun
  cases hrun

theorem Throws.throw {fault : Fault} (h : culprit fault) :
    Throws culprit (MonadExcept.throw fault : Synth α) := by
  intro session found stopped hrun
  cases hrun
  exact h

theorem Throws.bind {step : Synth α} {next : α → Synth β} (h : Throws culprit step)
    (hnext : ∀ session answer after,
      step session = .ok answer after → Throws culprit (next answer)) :
    Throws culprit (step >>= next) := by
  intro session fault stopped hrun
  cases hstep : step session with
  | ok answer after =>
    rw [bind_of_ok hstep] at hrun
    exact hnext session answer after hstep after fault stopped hrun
  | error found last =>
    rw [bind_of_error hstep] at hrun
    cases hrun
    exact h session fault stopped hstep

theorem Throws.onLedger (step : Ledger → α × Ledger) : Throws culprit (onLedger step) := by
  intro session fault stopped hrun
  cases hrun

theorem Throws.inLoop {id : String} {body : Synth α} (h : Throws culprit body) :
    Throws culprit (inLoop id body) := by
  intro session fault stopped hrun
  unfold Synth.inLoop at hrun
  cases hbody : body { session with loops := id :: session.loops } with
  | ok answer after => simp [hbody] at hrun
  | error found last =>
    rw [hbody] at hrun
    cases hrun
    exact h _ _ _ hbody

theorem Throws.ofExcept {result : Except Fault α}
    (h : ∀ fault, result = .error fault → culprit fault) :
    Throws culprit (MonadExcept.ofExcept result) := by
  cases result with
  | ok answer => exact Throws.pure answer
  | error fault => exact Throws.throw (h fault rfl)

end Synth

/-! ### Scripts -/

namespace Script

variable {α : Type} {culprit : Fault → Prop}

/-- All faults that the script itself can raise are of this kind. -/
def Faults (culprit : Fault → Prop) : Script α → Prop
  | done _ => True
  | fail fault => culprit fault
  | value _ _ next => ∀ code, (next code).Faults culprit
  | statements _ next => ∀ code, (next code).Faults culprit
  | loopBody _ next => ∀ code, (next code).Faults culprit
  | enclosingLoop next => ∀ id, (next id).Faults culprit
  | resolve _ _ next => ∀ word, (next word).Faults culprit
  | fresh _ next => ∀ word, (next word).Faults culprit
  | helper _ _ next => ∀ word, (next word).Faults culprit
  | require _ _ next => next.Faults culprit
  | define _ _ next => next.Faults culprit

theorem Faults.mono {blamed : Fault → Prop} {script : Script α} (h : script.Faults culprit)
    (himp : ∀ fault, culprit fault → blamed fault) : script.Faults blamed := by
  induction script with
  | done answer => exact trivial
  | fail fault => exact himp fault h
  | value slot rank next ih => exact fun code => ih code (h code)
  | statements slot next ih => exact fun code => ih code (h code)
  | loopBody slot next ih => exact fun code => ih code (h code)
  | enclosingLoop next ih => exact fun id => ih id (h id)
  | resolve space name next ih => exact fun word => ih word (h word)
  | fresh name next ih => exact fun word => ih word (h word)
  | helper key template next ih => exact fun word => ih word (h word)
  | require tag text next ih => exact ih h
  | define name text next ih => exact ih h

/-- The faults of a recast script are changed ones. -/
theorem faults_recast {fault : Fault → Fault} (h : ∀ found, culprit (fault found))
    (rename : String → String) (script : Script α) :
    (script.recast fault rename).Faults culprit := by
  induction script with
  | done answer => exact trivial
  | fail found => exact h found
  | value slot rank next ih => exact ih
  | statements slot next ih => exact ih
  | loopBody slot next ih => exact ih
  | enclosingLoop next ih => exact fun loop => ih (loop.map rename)
  | resolve space name next ih => exact ih
  | fresh name next ih => exact ih
  | helper key template next ih => exact ih
  | require tag text next ih => exact ih
  | define name text next ih => exact ih

theorem Faults.run {script : Script α} (h : script.Faults culprit) {setting : Setting}
    {id : String} {inputs branches : List (String × Offer)}
    (hvalue : ∀ slot rank,
      Synth.Throws culprit (atSlot inputs slot none fun offer => offer.value rank))
    (hchain : ∀ slot, Synth.Throws culprit (atSlot branches slot "" Offer.chain)) :
    Synth.Throws culprit (script.run setting id inputs branches) := by
  induction script with
  | done answer => exact Synth.Throws.pure answer
  | fail fault => exact Synth.Throws.throw h
  | value slot rank next ih => exact (hvalue slot rank).bind fun _ code _ _ => ih code (h code)
  | statements slot next ih => exact (hchain slot).bind fun _ code _ _ => ih _ (h _)
  | loopBody slot next ih => exact (hchain slot).inLoop.bind fun _ code _ _ => ih _ (h _)
  | enclosingLoop next ih => exact fun session => ih _ (h session.loops.head?) session
  | resolve space name next ih =>
    exact (Synth.Throws.onLedger _).bind fun _ word _ _ => ih word (h word)
  | fresh name next ih => exact (Synth.Throws.onLedger _).bind fun _ word _ _ => ih word (h word)
  | helper key template next ih =>
    exact (Synth.Throws.onLedger _).bind fun _ word _ _ => ih word (h word)
  | require tag text next ih => exact (Synth.Throws.onLedger _).bind fun _ _ _ _ => ih h
  | define name text next ih => exact (Synth.Throws.onLedger _).bind fun _ _ _ _ => ih h

end Script

/-! ### Nodes -/

/-- The scripts of the target blame their own node, for one of its fields. -/
def Setting.SelfBlaming (setting : Setting) : Prop :=
  ∀ (node : Node) (emitter : Emitter), setting.target.catalog.find? node.kind = some emitter →
    (emitter.script setting.config node).Faults fun fault => ∃ field, fault = .ofOption node field

variable {setting : Setting} {workspace : Workspace}

/-- Whatever the node is asked for where it stands, an enabled node of the workspace
is to blame if it fails. -/
structure Accounted (setting : Setting) (workspace : Workspace) (node : Node) : Prop where
  emission :
    node.disabled = false → Synth.Throws (setting.Blames workspace) (node.offer setting).emission
  value : workspace.InSlot node → ∀ place,
    Synth.Throws (setting.Blames workspace) ((node.offer setting).value place)
  chain : workspace.OnChain node →
    Synth.Throws (setting.Blames workspace) (chainOffer setting (some node))

theorem throws_emission (hself : setting.SelfBlaming) {node : Node}
    (hnode : node ∈ workspace.nodes) (henabled : node.disabled = false)
    (hvalue : ∀ slot place,
      Synth.Throws (setting.Blames workspace) (valueOffer setting place (node.input slot)))
    (hchain : ∀ slot,
      Synth.Throws (setting.Blames workspace) (chainOffer setting (node.statement slot))) :
    Synth.Throws (setting.Blames workspace) (node.offer setting).emission := by
  cases hfind : setting.target.catalog.find? node.kind with
  | none =>
    rw [emission_of_unknown hfind]
    exact Synth.Throws.throw ⟨node, hnode, henabled, .kind hfind⟩
  | some emitter =>
    rw [emission_of_find? hfind]
    have hfaults : (emitter.script setting.config node).Faults (setting.Blames workspace) := by
      refine (hself node emitter hfind).mono ?_
      rintro fault ⟨field, rfl⟩
      exact ⟨node, hnode, henabled, .option field⟩
    refine hfaults.run (fun slot rank => ?_) fun slot => ?_
    · rw [atSlot_value]
      exact hvalue slot rank
    · rw [atSlot_chain]
      exact hchain slot

/-- An emission that is no value, in a value slot. -/
theorem throws_value {node : Node} (hnode : node ∈ workspace.nodes) (hslot : workspace.InSlot node)
    (h : node.disabled = false →
      Synth.Throws (setting.Blames workspace) (node.offer setting).emission) (place : Rank) :
    Synth.Throws (setting.Blames workspace) ((node.offer setting).value place) := by
  rw [value_offer]
  split
  · exact Synth.Throws.pure none
  · rename_i hdisabled
    have henabled : node.disabled = false := by simpa using hdisabled
    refine (h henabled).bind fun session emission after hemission =>
      Synth.Throws.ofExcept fun fault hfault => ?_
    have hemits : setting.Emits node emission := ⟨session, after, hemission⟩
    cases emission with
    | value code rank => cases hfault
    | statement code =>
      cases hfault
      exact ⟨node, hnode, henabled, .value hslot hemits nofun⟩
    | nothing =>
      cases hfault
      exact ⟨node, hnode, henabled, .value hslot hemits nofun⟩

/-- A value on a chain. -/
theorem throws_lines {node : Node} (hnode : node ∈ workspace.nodes)
    (hchain : workspace.OnChain node)
    (h : node.disabled = false →
      Synth.Throws (setting.Blames workspace) (node.offer setting).emission) :
    Synth.Throws (setting.Blames workspace) (setting.lines node) := by
  unfold Setting.lines
  split
  · exact Synth.Throws.pure ""
  · rename_i hdisabled
    have henabled : node.disabled = false := by simpa using hdisabled
    refine (h henabled).bind fun session emission after hemission =>
      Synth.Throws.ofExcept fun fault hfault => ?_
    cases emission with
    | value code rank =>
      cases hfault
      exact ⟨node, hnode, henabled, .statement hchain ⟨session, after, hemission⟩⟩
    | statement code => cases hfault
    | nothing => cases hfault

/-- By induction on the size of the node, for what stands in its slots and for what follows it. -/
theorem accounted (hself : setting.SelfBlaming)
    (node : Node) (hnodes : node.nodes ⊆ workspace.nodes) :
    Accounted setting workspace node := by
  induction hsize : sizeOf node using Nat.strongRecOn generalizing node with
  | ind size ih =>
    subst hsize
    have hnode : node ∈ workspace.nodes := hnodes node.mem_nodes_self
    have hemission : node.disabled = false →
        Synth.Throws (setting.Blames workspace) (node.offer setting).emission := by
      intro henabled
      refine throws_emission hself hnode henabled (fun slot place => ?_) fun slot => ?_
      · cases hchild : node.input slot with
        | none => exact Synth.Throws.pure none
        | some child =>
          have hbelow := ih _ (Node.sizeOf_input_lt hchild) child
            (List.Subset.trans (Node.nodes_input_subset hchild) hnodes) rfl
          exact hbelow.value ⟨node, hnode, slot, hchild⟩ place
      · cases hchild : node.statement slot with
        | none => exact Synth.Throws.pure ""
        | some child =>
          have hbelow := ih _ (Node.sizeOf_statement_lt hchild) child
            (List.Subset.trans (Node.nodes_statement_subset hchild) hnodes) rfl
          exact hbelow.chain (.slot hnode hchild)
    refine ⟨hemission, fun hslot => throws_value hnode hslot hemission, fun hchain => ?_⟩
    rw [Setting.chainOffer_lines]
    refine (throws_lines hnode hchain hemission).bind fun _ here _ _ => ?_
    refine Synth.Throws.bind ?_ fun _ more _ _ => Synth.Throws.pure (here ++ more)
    cases hchild : node.next with
    | none => exact Synth.Throws.pure ""
    | some child =>
      have hbelow := ih _ (Node.sizeOf_next_lt hchild) child
        (List.Subset.trans (Node.nodes_next_subset hchild) hnodes) rfl
      exact hbelow.chain (hchain.next hchild)

/-! ### Roots -/

theorem throws_renderRoot (hself : setting.SelfBlaming)
    {root : Node} (hroot : root ∈ workspace.roots) :
    Synth.Throws (setting.Blames workspace) (setting.renderRoot root) := by
  have hnodes : root.nodes ⊆ workspace.nodes :=
    fun each heach => List.mem_flatMap.mpr ⟨root, hroot, heach⟩
  -- A root may be a value, so it is only what stands behind it that is on a chain.
  have hrest : Synth.Throws (setting.Blames workspace) (setting.renderChain root.next) := by
    cases hnext : root.next with
    | none => exact Synth.Throws.pure ""
    | some child =>
      have hbelow : child.nodes ⊆ workspace.nodes :=
        List.Subset.trans (Node.nodes_next_subset hnext) hnodes
      exact (accounted hself child hbelow).chain (.behind hroot hnext)
  unfold Setting.renderRoot
  split
  · exact hrest
  · rename_i hdisabled
    have henabled : root.disabled = false := by simpa using hdisabled
    refine ((accounted hself root hnodes).emission henabled).bind fun session emission after _ => ?_
    have hstatement : ∀ here, Synth.Throws (setting.Blames workspace) (do
        return here ++ (← setting.renderChain root.next)) :=
      fun here => hrest.bind fun _ more _ _ => Synth.Throws.pure (here ++ more)
    cases emission with
    | value code rank =>
      dsimp only
      split <;> exact Synth.Throws.pure _
    | statement code => exact (Synth.Throws.pure _).bind fun _ here _ _ => hstatement here
    | nothing => exact (Synth.Throws.pure _).bind fun _ here _ _ => hstatement here

theorem throws_renderRoots (hself : setting.SelfBlaming)
    {roots : List Node} (hroots : roots ⊆ workspace.roots) :
    Synth.Throws (setting.Blames workspace) (setting.renderRoots roots) := by
  induction roots with
  | nil => exact Synth.Throws.pure []
  | cons root rest ih =>
    rw [List.cons_subset] at hroots
    refine (throws_renderRoot hself hroots.1).bind fun _ code _ _ => ?_
    exact (ih hroots.2).bind fun _ codes _ _ => Synth.Throws.pure _

/-- A program that does not come out is the fault of a node of the workspace. -/
theorem blames_of_generate (hself : setting.SelfBlaming) {fault : Fault}
    (h : setting.generate workspace = .error fault) : setting.Blames workspace fault := by
  unfold Setting.generate at h
  split at h
  · simp at h
  · rename_i found stopped hrun
    obtain rfl := Except.error.inj h
    exact throws_renderRoots hself (List.Subset.refl _) _ _ _ hrun

end BlockSynth
