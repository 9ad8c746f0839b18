import BlockSynth.Proofs.Copy
import BlockSynth.Proofs.Provision

/-! # How rendering reaches a node

Rendering a node asks its script for one slot after the other, and then goes on to the node behind
it in its chain. The way from a node to another one is the list of the links that lead there. What
is reached is rendered where it stands, so a fault there is a fault of the whole.
-/
namespace BlockSynth

/-- How one node leads to another. -/
inductive Link
  | input (slot : String)
  | branch (slot : String)
  /-- A statement slot that is rendered as the body of a loop. -/
  | loop (slot : String)
  | next
  deriving DecidableEq, Repr

structure Step where
  node : Node
  link : Link

def Node.behind (node : Node) : Link → Option Node
  | .input slot => node.input slot
  | .branch slot => node.statement slot
  | .loop slot => node.statement slot
  | .next => node.next

/-- The place that a node stands in to which a link leads. -/
def Link.place : Link → Shape
  | .input _ => .value
  | _ => .statement

/-- The loop that a step of a way goes into. -/
def Step.loop? (step : Step) : Option String :=
  match step.link with
  | .loop _ => some step.node.id
  | _ => none

/-- The session in which the node behind a link is rendered. -/
def Session.along (session : Session) (step : Step) : Session :=
  { session with loops := step.loop?.toList ++ session.loops }

/-! ### Scripts -/

namespace Script

variable {α β : Type}

/-- The slot that a script asks for first. -/
def link? : Script α → Option Link
  | value slot _ _ => some (.input slot)
  | statements slot _ => some (.branch slot)
  | loopBody slot _ => some (.loop slot)
  | _ => none

/-- The first request of a script, answered by what is left of it. -/
def first : Script α → Script (Script α)
  | done answer => done (done answer)
  | fail fault => fail fault
  | value slot rank next => value slot rank fun code => done (next code)
  | statements slot next => statements slot fun code => done (next code)
  | loopBody slot next => loopBody slot fun code => done (next code)
  | enclosingLoop next => enclosingLoop fun id => done (next id)
  | resolve space name next => resolve space name fun word => done (next word)
  | fresh name next => fresh name fun word => done (next word)
  | helper key template next => helper key template fun name => done (next name)
  | require tag text next => require tag text (done next)
  | define name text next => define name text (done next)

theorem first_bind (script : Script α) : (script.first >>= id) = script := by
  cases script <;> rfl

/-- Scripts that are put together are run one after the other. -/
theorem run_bind {setting : Setting} {id : String}
    {inputs branches : List (String × Offer)} (script : Script α) (next : α → Script β) :
    (script >>= next).run setting id inputs branches =
      script.run setting id inputs branches >>= fun answer =>
        (next answer).run setting id inputs branches := by
  show (script.bind next).run setting id inputs branches = _
  induction script with
  | done answer => rfl
  | fail fault => rfl
  | value slot rank rest ih => simp only [Script.bind, Script.run, ih, bind_assoc]
  | statements slot rest ih => simp only [Script.bind, Script.run, ih, bind_assoc]
  | loopBody slot rest ih => simp only [Script.bind, Script.run, ih, bind_assoc]
  | enclosingLoop rest ih => simp only [Script.bind, Script.run, ih, bind_assoc]
  | resolve space name rest ih => simp only [Script.bind, Script.run, ih, bind_assoc]
  | fresh name rest ih => simp only [Script.bind, Script.run, ih, bind_assoc]
  | helper key template rest ih => simp only [Script.bind, Script.run, ih, bind_assoc]
  | require tag text rest ih => simp only [Script.bind, Script.run, ih, bind_assoc]
  | define name text rest ih => simp only [Script.bind, Script.run, ih, bind_assoc]

/-- Of its input slots a run only knows who is in which. -/
theorem run_congr {setting : Setting} {id : String} {inputs other branches : List (String × Offer)}
    (h : ∀ slot, inputs.lookup slot = other.lookup slot) (script : Script α) :
    script.run setting id inputs branches = script.run setting id other branches := by
  induction script with
  | done answer => rfl
  | fail fault => rfl
  | value slot rank rest ih => simp only [run, ih, atSlot, h]
  | statements slot rest ih => simp only [run, ih]
  | loopBody slot rest ih => simp only [run, ih]
  | enclosingLoop rest ih => simp only [run, ih]
  | resolve space name rest ih => simp only [run, ih]
  | fresh name rest ih => simp only [run, ih]
  | helper key template rest ih => simp only [run, ih]
  | require tag text rest ih => simp only [run, ih]
  | define name text rest ih => simp only [run, ih]

end Script

namespace Setting

variable {α β : Type} (setting : Setting) (node : Node)

theorem ask_bind (script : Script α) (next : α → Script β) :
    setting.ask node (script >>= next) = setting.ask node script >>= fun answer =>
      setting.ask node (next answer) :=
  script.run_bind next

/-- A script makes its first request, and goes on from there. -/
theorem ask_first (script : Script α) :
    setting.ask node script = setting.ask node script.first >>= setting.ask node := by
  calc setting.ask node script
      = setting.ask node (script.first >>= id) := by rw [script.first_bind]
    _ = setting.ask node script.first >>= setting.ask node := setting.ask_bind node script.first id

/-- Run for a node, the script comes to ask for the slot of a link, in the session
that it has by then. -/
inductive Asks {α : Type} : Script α → Session → Link → Session → Prop
  | now {script : Script α} {link : Link} (session : Session) :
    script.link? = some link → Asks script session link session
  | later {script rest : Script α} {session after asked : Session} {link : Link} :
    setting.ask node script.first session = .ok rest after → Asks rest after link asked →
      Asks script session link asked

/-- The lines that a node itself adds to its chain. -/
def lines : Synth String :=
  if node.disabled then pure ""
  else do MonadExcept.ofExcept ((← (node.offer setting).emission).asStatement setting node)

theorem chainOffer_lines :
    chainOffer setting (some node) =
      setting.lines node >>= fun here => do return here ++ (← chainOffer setting node.next) := by
  rw [chainOffer_some]
  unfold lines
  split
  · rfl
  · rw [bind_assoc]

end Setting

/-! ### Nodes -/

/-- Rendering a node in a place of the given shape leads along a way to the emission of an enabled
node, in the session that there is by then. -/
inductive Reaches (setting : Setting) : Shape → Node → Session → List Step → Node → Session → Prop
  | here {node : Node} (place : Shape) (session : Session) :
    node.disabled = false → Reaches setting place node session [] node session
  | slot {node child target : Node} {emitter : Emitter}
    {link : Link} {session asked found : Session}
    {way : List Step} (place : Shape) :
    node.disabled = false → setting.target.catalog.find? node.kind = some emitter →
      setting.Asks node (emitter.script setting.config node) session link asked →
      node.behind link = some child →
      Reaches setting link.place child (asked.along ⟨node, link⟩) way target found →
      Reaches setting place node session (⟨node, link⟩ :: way) target found
  | next {node child target : Node} {session after found : Session}
    {way : List Step} {code : String} :
    setting.lines node session = .ok code after → node.next = some child →
      Reaches setting .statement child after way target found →
      Reaches setting .statement node session (⟨node, .next⟩ :: way) target found

/-! ### Faults -/

/-- What a node is asked for in a place fails. -/
def Setting.Fails (setting : Setting) (fault : Fault) (place : Shape) (node : Node)
    (session : Session) : Prop :=
  match place with
  | .value => ∀ rank, ∃ stopped, valueOffer setting rank (some node) session = .error fault stopped
  | .statement => ∃ stopped, chainOffer setting (some node) session = .error fault stopped

namespace Synth

variable {α : Type} {step : Synth α} {session stopped : Session} {fault : Fault}

theorem inLoop_of_error {id : String}
    (h : step { session with loops := id :: session.loops } = .error fault stopped) :
    inLoop id step session = .error fault { stopped with loops := stopped.loops.tail } := by
  unfold inLoop
  rw [h]

end Synth

namespace Setting

variable {setting : Setting} {node : Node} {fault : Fault}

theorem fails_of_emission {session stopped : Session} (henabled : node.disabled = false)
    (h : (node.offer setting).emission session = .error fault stopped) (place : Shape) :
    setting.Fails fault place node session := by
  cases place with
  | value =>
    intro rank
    refine ⟨stopped, ?_⟩
    show (node.offer setting).value rank session = _
    rw [value_offer, henabled, if_neg Bool.false_ne_true]
    exact Synth.bind_of_error h _
  | statement =>
    refine ⟨stopped, ?_⟩
    rw [chainOffer_some, henabled, if_neg Bool.false_ne_true]
    exact Synth.bind_of_error h _

/-- A slot that cannot be rendered is a fault of the script that asks for it. -/
theorem Asks.fails {α : Type} {script : Script α} {session asked : Session}
    {link : Link} {child : Node} (h : setting.Asks node script session link asked)
    (hchild : node.behind link = some child)
    (hfails : setting.Fails fault link.place child (asked.along ⟨node, link⟩)) :
    ∃ stopped, setting.ask node script session = .error fault stopped := by
  induction h with
  | @now script link session hlink =>
    unfold ask
    cases script with
    | value slot rank next =>
      obtain rfl := Option.some.inj hlink
      obtain ⟨stopped, hstopped⟩ := hfails rank
      refine ⟨stopped, ?_⟩
      rw [Script.run, atSlot_value]
      refine Synth.bind_of_error ?_ _
      rw [show node.inputs.lookup slot = some child from hchild]
      exact hstopped
    | statements slot next =>
      obtain rfl := Option.some.inj hlink
      obtain ⟨stopped, hstopped⟩ := hfails
      refine ⟨stopped, ?_⟩
      rw [Script.run, atSlot_chain]
      refine Synth.bind_of_error ?_ _
      rw [show node.statements.lookup slot = some child from hchild]
      exact hstopped
    | loopBody slot next =>
      obtain rfl := Option.some.inj hlink
      obtain ⟨stopped, hstopped⟩ := hfails
      refine ⟨{ stopped with loops := stopped.loops.tail }, ?_⟩
      rw [Script.run, atSlot_chain]
      refine Synth.bind_of_error (Synth.inLoop_of_error ?_) _
      rw [show node.statements.lookup slot = some child from hchild]
      exact hstopped
    | _ => simp [Script.link?] at hlink
  | later hfirst _ ih =>
    obtain ⟨stopped, hstopped⟩ := ih hchild hfails
    refine ⟨stopped, ?_⟩
    rw [ask_first, Synth.bind_of_ok hfirst]
    exact hstopped

end Setting

/-- A node that is reached and cannot be rendered is a fault of the node from which it
is reached. -/
theorem Reaches.fails {setting : Setting} {place : Shape} {node target : Node}
    {session found stopped : Session} {way : List Step} {fault : Fault}
    (h : Reaches setting place node session way target found)
    (hfault : (target.offer setting).emission found = .error fault stopped) :
    setting.Fails fault place node session := by
  induction h with
  | here place session henabled => exact Setting.fails_of_emission henabled hfault place
  | slot place henabled hfind hasks hchild _ ih =>
    obtain ⟨stopped', hask⟩ := hasks.fails hchild (ih hfault)
    rw [← emission_of_find? hfind] at hask
    exact Setting.fails_of_emission henabled hask place
  | next hlines hnext _ ih =>
    obtain ⟨stopped', hchain⟩ := ih hfault
    refine ⟨stopped', ?_⟩
    rw [Setting.chainOffer_lines, Synth.bind_of_ok hlines, hnext]
    exact Synth.bind_of_error hchain _

end BlockSynth
