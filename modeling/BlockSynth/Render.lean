import BlockSynth.Target

/-! # Rendering

Rendering runs the scripts of emitters. The state of a run is its ledger of names, helpers and
definitions and the stack of the loops it is inside of; a fault leaves the state as it is at that
moment.
-/
namespace BlockSynth

structure Session extends Ledger where
  /-- The ids of the loops around the current node, innermost first. -/
  loops : List String := []
  deriving DecidableEq, Repr

abbrev Synth := EStateM Fault Session

namespace Synth

/-- A step that only concerns the ledger. -/
def onLedger {α : Type} (step : Ledger → α × Ledger) : Synth α := fun session =>
  let (answer, ledger) := step session.toLedger
  .ok answer { session with toLedger := ledger }

/-- Run inside a loop, which is left again however the run ends. -/
def inLoop {α : Type} (id : String) (body : Synth α) : Synth α := fun session =>
  match body { session with loops := id :: session.loops } with
  | .ok answer session => .ok answer { session with loops := session.loops.tail }
  | .error fault session => .error fault { session with loops := session.loops.tail }

end Synth

/-- What a node can be asked for: its emission, its code as a value, and the code of the chain that
it begins. -/
structure Offer where
  emission : Synth Emission
  value : Rank → Synth (Option String)
  chain : Synth String

def wrap (place rank : Rank) (code : String) : String :=
  if place.needsParens rank then s!"({code})" else code

/-- The code of an emission in a value slot; empty code counts as none. -/
def Emission.asValue (node : Node) (place : Rank) : Emission → Except Fault (Option String)
  | .value code rank => .ok (if code = "" then none else some (wrap place rank code))
  | _ => .error (.ofShape node .value)

/-- The lines of an emission in a chain, with the comments and the injected text of its node. -/
def Emission.asStatement (setting : Setting) (node : Node) : Emission → Except Fault String
  | .statement code =>
    let selfInjecting := (setting.target.catalog.find? node.kind).any Emitter.selfInjecting
    .ok (setting.comments node ++
      if selfInjecting then code else setting.before node.id ++ code ++ setting.after node.id)
  | .nothing => .ok ""
  | .value .. => .error (.ofShape node .statement)

namespace Script

/-- The answer of a slot that may be empty. -/
def atSlot {α : Type} (slots : List (String × Offer)) (slot : String) (empty : α)
    (ask : Offer → Synth α) : Synth α :=
  match slots.lookup slot with
  | some offer => ask offer
  | none => pure empty

/-- Run a script for the node with the given id and slots. -/
def run {α : Type} (setting : Setting) (id : String) (inputs branches : List (String × Offer)) :
    Script α → Synth α
  | done answer => pure answer
  | fail fault => throw fault
  | value slot rank next => do
    let code ← atSlot inputs slot none fun offer => offer.value rank
    (next code).run setting id inputs branches
  | statements slot next => do
    let code ← atSlot branches slot "" Offer.chain
    (next (Text.prefixLines setting.config.indentUnit code)).run setting id inputs branches
  | loopBody slot next => do
    let code ← Synth.inLoop id (atSlot branches slot "" Offer.chain)
    let body := Text.prefixLines setting.config.indentUnit code
    (next (setting.trapLoop body id)).run setting id inputs branches
  | enclosingLoop next => do
    (next (← get).loops.head?).run setting id inputs branches
  | resolve space name next => do
    let word ← Synth.onLedger (·.resolve space name)
    (next word).run setting id inputs branches
  | fresh name next => do
    let word ← Synth.onLedger (·.fresh name)
    (next word).run setting id inputs branches
  | helper key template next => do
    let name ← Synth.onLedger (·.provide setting.config.indentUnit key template)
    (next name).run setting id inputs branches
  | require tag text next => do
    Synth.onLedger fun ledger => ((), ledger.require tag text)
    next.run setting id inputs branches
  | define name text next => do
    Synth.onLedger fun ledger => ((), ledger.define name text)
    next.run setting id inputs branches

end Script

/-- The offer of a node whose slots and followers have made theirs. -/
def Offer.ofNode (setting : Setting) (node : Node) (inputs branches : List (String × Offer))
    (rest : Synth String) : Offer :=
  let emission : Synth Emission :=
    match setting.target.catalog.find? node.kind with
    | some emitter => (emitter.script setting.config node).run setting node.id inputs branches
    | none => throw (.ofKind node)
  { emission
    value := fun place =>
      if node.disabled then pure none
      else do MonadExcept.ofExcept ((← emission).asValue node place)
    chain := do
      let here ←
        if node.disabled then pure ""
        else MonadExcept.ofExcept ((← emission).asStatement setting node)
      return here ++ (← rest) }

mutual

def Node.offer (setting : Setting) : Node → Offer
  | ⟨id, kind, fields, inputs, statements, next, comment, disabled, mutation⟩ =>
    Offer.ofNode setting
      ⟨id, kind, fields, inputs, statements, next, comment, disabled, mutation⟩
      (slotOffers setting inputs) (slotOffers setting statements) (chainOffer setting next)
termination_by structural node => node

def slotOffers (setting : Setting) : List (String × Node) → List (String × Offer)
  | [] => []
  | (slot, node) :: rest => (slot, node.offer setting) :: slotOffers setting rest
termination_by structural slots => slots

def chainOffer (setting : Setting) : Option Node → Synth String
  | none => pure ""
  | some node => (node.offer setting).chain
termination_by structural next => next

end

namespace Setting

/-- Run a script as the emitter of a node would. -/
def ask {α : Type} (setting : Setting) (node : Node) (script : Script α) : Synth α :=
  script.run setting node.id (slotOffers setting node.inputs) (slotOffers setting node.statements)

/-- The code of a node in a place of the given rank, or what stands for no node. -/
def renderValue (setting : Setting) (node : Option Node) (place : Rank) (fallback : String) :
    Synth String := do
  match node with
  | some node => return ((← (node.offer setting).value place).getD fallback)
  | none => return fallback

/-- The code of a chain from its first node on. -/
def renderChain (setting : Setting) (first : Option Node) : Synth String :=
  chainOffer setting first

/-- The code of a root. A value there is evaluated for nothing, and ends its stack. -/
def renderRoot (setting : Setting) (root : Node) : Synth String := do
  if root.disabled then setting.renderChain root.next
  else
    match ← (root.offer setting).emission with
    | .value code _ =>
      if code = "" then return ""
      else return setting.comments root ++ setting.before root.id ++
        setting.target.nakedValue code ++ setting.after root.id
    | emission =>
      let here ← MonadExcept.ofExcept (emission.asStatement setting root)
      return here ++ (← setting.renderChain root.next)

/-- The code of all roots that have any. -/
def renderRoots (setting : Setting) : List Node → Synth (List String)
  | [] => return []
  | root :: rest => do
    let code ← setting.renderRoot root
    let codes ← setting.renderRoots rest
    return if code = "" then codes else code :: codes

/-- The session at the start of a run. -/
def session (setting : Setting) : Session :=
  { names := (Registry.reserve {} setting.target.reservedWords).reserve setting.config.reservedWords }

/-- Record what the program opens with. -/
def openProgram (setting : Setting) (workspace : Workspace) (session : Session) : Session :=
  { session with toLedger := setting.target.opening workspace session.toLedger }

/-- Put the program together; its definitions are used up. -/
def closeProgram (setting : Setting) (body : String) (session : Session) : String × Session :=
  let definitions := session.definitions
  (setting.target.assemble setting.config definitions.imports definitions.others body,
    { session with definitions := {} })

/-- The whole program of a workspace. -/
def generate (setting : Setting) (workspace : Workspace) : Except Fault String :=
  match setting.renderRoots workspace.roots (setting.openProgram workspace setting.session) with
  | .ok codes session =>
    .ok (Text.tidy (setting.closeProgram (Text.join "\n" codes) session).1)
  | .error fault _ => .error fault

end Setting

end BlockSynth
