import BlockSynth.Proofs.Reach

/-! # Rendering by the way

A session finds the loop around a node at the top of a stack that is kept while rendering. Where a
node stands in its graph tells the same. Here nodes are rendered without a stack: each of them is
given the way that leads to it, and its script is told the last loop into whose body that way goes.
Both renderings give the same text, the same faults and the same ledger.
-/
namespace BlockSynth

/-- The id of the last loop that a way goes into. -/
def innermost (way : List Step) : Option String :=
  way.reverse.findSome? Step.loop?

theorem innermost_concat (way : List Step) (step : Step) :
    innermost (way ++ [step]) = step.loop?.or (innermost way) := by
  unfold innermost
  rw [List.reverse_concat, List.findSome?_cons]
  cases step.loop? <;> rfl

/-! ### Steps that keep no stack -/

abbrev Stackless := EStateM Fault Ledger

/-- The step of a session, which stays inside of the same loops. -/
def Stackless.synth {α : Type} (step : Stackless α) : Synth α := fun session =>
  match step session.toLedger with
  | .ok answer ledger => .ok answer { session with toLedger := ledger }
  | .error fault ledger => .error fault { session with toLedger := ledger }

/-- What a node can be asked for where it stands. -/
structure Placed where
  emission : Stackless Emission
  value : Rank → Stackless (Option String)
  chain : Stackless String

def Placed.atSlot {α : Type} (slots : List (String × Placed)) (slot : String) (empty : α)
    (ask : Placed → Stackless α) : Stackless α :=
  match slots.lookup slot with
  | some placed => ask placed
  | none => pure empty

/-- Run a script for the node with the given id that stands in the given loop. A statement slot has
two nodes to offer, one that stands there and one that stands there in the body of a loop. -/
def Script.runAt {α : Type} (setting : Setting) (id : String) (loop : Option String)
    (inputs branches bodies : List (String × Placed)) : Script α → Stackless α
  | done answer => pure answer
  | fail fault => throw fault
  | value slot rank next => do
    let code ← Placed.atSlot inputs slot none fun placed => placed.value rank
    (next code).runAt setting id loop inputs branches bodies
  | statements slot next => do
    let code ← Placed.atSlot branches slot "" Placed.chain
    (next (Text.prefixLines setting.config.indentUnit code)).runAt setting id loop
      inputs branches bodies
  | loopBody slot next => do
    let code ← Placed.atSlot bodies slot "" Placed.chain
    let body := Text.prefixLines setting.config.indentUnit code
    (next (setting.trapLoop body id)).runAt setting id loop inputs branches bodies
  | enclosingLoop next => (next loop).runAt setting id loop inputs branches bodies
  | resolve space name next => do
    let word ← modifyGet (·.resolve space name)
    (next word).runAt setting id loop inputs branches bodies
  | fresh name next => do
    let word ← modifyGet (·.fresh name)
    (next word).runAt setting id loop inputs branches bodies
  | helper key template next => do
    let name ← modifyGet (·.provide setting.config.indentUnit key template)
    (next name).runAt setting id loop inputs branches bodies
  | require tag text next => do
    modifyGet fun ledger => ((), ledger.require tag text)
    next.runAt setting id loop inputs branches bodies
  | define name text next => do
    modifyGet fun ledger => ((), ledger.define name text)
    next.runAt setting id loop inputs branches bodies

def Placed.ofNode (setting : Setting) (node : Node) (loop : Option String)
    (inputs branches bodies : List (String × Placed)) (rest : Stackless String) : Placed :=
  let emission : Stackless Emission :=
    match setting.target.catalog.find? node.kind with
    | some emitter =>
      (emitter.script setting.config node).runAt setting node.id loop inputs branches bodies
    | none => throw (.ofKind node)
  { emission
    value := fun place =>
      if node.disabled then pure none
      else do MonadExcept.ofExcept ((← emission).asValue node place)
    chain := do
      let here ←
        if node.disabled then pure ""
        else MonadExcept.ofExcept ((← emission).asStatement setting node)
      return here ++ (← rest) }

mutual

/-- What a node can be asked for that the given way leads to, from a place in the loop `start`. -/
def Node.placed (setting : Setting) (start : Option String) (way : List Step) : Node → Placed
  | ⟨id, kind, fields, inputs, statements, next, comment, disabled, mutation⟩ =>
    let node : Node := ⟨id, kind, fields, inputs, statements, next, comment, disabled, mutation⟩
    Placed.ofNode setting node ((innermost way).or start)
      (slotsPlaced setting start (fun slot => way ++ [⟨node, .input slot⟩]) inputs)
      (slotsPlaced setting start (fun slot => way ++ [⟨node, .branch slot⟩]) statements)
      (slotsPlaced setting start (fun slot => way ++ [⟨node, .loop slot⟩]) statements)
      (chainPlaced setting start (way ++ [⟨node, .next⟩]) next)
termination_by structural node => node

def slotsPlaced (setting : Setting) (start : Option String) (way : String → List Step) :
    List (String × Node) → List (String × Placed)
  | [] => []
  | (slot, node) :: rest =>
    (slot, node.placed setting start (way slot)) :: slotsPlaced setting start way rest
termination_by structural slots => slots

def chainPlaced (setting : Setting) (start : Option String) (way : List Step) :
    Option Node → Stackless String
  | none => pure ""
  | some node => (node.placed setting start way).chain
termination_by structural next => next

end

namespace Setting

variable (setting : Setting) (start : Option String)

def valuePlaced (node : Option Node) (place : Rank) (fallback : String) : Stackless String := do
  match node with
  | some node => return ((← (node.placed setting start []).value place).getD fallback)
  | none => return fallback

def rootPlaced (root : Node) : Stackless String := do
  if root.disabled then chainPlaced setting start [⟨root, .next⟩] root.next
  else
    match ← (root.placed setting start []).emission with
    | .value code _ =>
      if code = "" then return ""
      else return setting.comments root ++ setting.before root.id ++
        setting.target.nakedValue code ++ setting.after root.id
    | emission =>
      let here ← MonadExcept.ofExcept (emission.asStatement setting root)
      return here ++ (← chainPlaced setting start [⟨root, .next⟩] root.next)

end Setting

/-! ### Agreement -/

/-- Inside of the given loop, a step is the one that keeps no stack. -/
def Synth.IsAt {α : Type} (loop : Option String) (step : Synth α) (placed : Stackless α) : Prop :=
  ∀ session, session.loops.head? = loop → step session = placed.synth session

namespace Synth.IsAt

variable {α β : Type} {loop : Option String}

theorem pure (answer : α) : IsAt loop (Pure.pure answer) (Pure.pure answer) :=
  fun _ _ => rfl

theorem throw (fault : Fault) :
    IsAt (α := α) loop (MonadExcept.throw fault) (MonadExcept.throw fault) :=
  fun _ _ => rfl

theorem ofExcept (result : Except Fault α) :
    IsAt loop (MonadExcept.ofExcept result) (MonadExcept.ofExcept result) := by
  cases result with
  | ok answer => exact pure answer
  | error fault => exact throw fault

theorem onLedger (step : Ledger → α × Ledger) : IsAt loop (Synth.onLedger step) (modifyGet step) :=
  fun _ _ => rfl

theorem bind {step : Synth α} {placed : Stackless α} {next : α → Synth β} {after : α → Stackless β}
    (h : IsAt loop step placed) (hnext : ∀ answer, IsAt loop (next answer) (after answer)) :
    IsAt loop (step >>= next) (placed >>= after) := by
  intro session hloop
  have hstep := h session hloop
  show EStateM.bind step next session = Stackless.synth (EStateM.bind placed after) session
  unfold EStateM.bind
  rw [hstep]
  unfold Stackless.synth
  dsimp only
  cases placed session.toLedger with
  | ok answer ledger => exact hnext answer { session with toLedger := ledger } hloop
  | error fault ledger => rfl

/-- A loop is entered and left again around its body. -/
theorem inLoop {id : String} {body : Synth α}
    {placed : Stackless α} (h : IsAt (some id) body placed) :
    IsAt loop (Synth.inLoop id body) placed := by
  intro session _
  have hbody := h { session with loops := id :: session.loops } rfl
  unfold Synth.inLoop
  rw [hbody]
  unfold Stackless.synth
  dsimp only
  cases placed session.toLedger <;> rfl

end Synth.IsAt

structure Offer.IsAt (loop : Option String) (offer : Offer) (placed : Placed) : Prop where
  emission : Synth.IsAt loop offer.emission placed.emission
  value : ∀ place, Synth.IsAt loop (offer.value place) (placed.value place)
  chain : Synth.IsAt loop offer.chain placed.chain

/-- The same slots, with what stands there inside of the given loop. -/
def SlotsAt (loop : Option String) (slots : List (String × Offer))
    (placed : List (String × Placed)) : Prop :=
  List.Forall₂
    (fun offered stands => offered.1 = stands.1 ∧ offered.2.IsAt loop stands.2) slots placed

theorem SlotsAt.atSlot {α : Type} {loop : Option String} {slots : List (String × Offer)}
    {placed : List (String × Placed)} (h : SlotsAt loop slots placed) (slot : String)
    (empty : α) {ask : Offer → Synth α} {askPlaced : Placed → Stackless α}
    (hask : ∀ offer stands, offer.IsAt loop stands →
      Synth.IsAt loop (ask offer) (askPlaced stands)) :
    Synth.IsAt loop (Script.atSlot slots slot empty ask)
      (Placed.atSlot placed slot empty askPlaced) := by
  induction h with
  | nil => exact Synth.IsAt.pure empty
  | @cons offered stands rest more hhead _ ih =>
    obtain ⟨name, offer⟩ := offered
    obtain ⟨name', stand⟩ := stands
    obtain ⟨rfl, hoffer⟩ : name = name' ∧ offer.IsAt loop stand := hhead
    unfold Script.atSlot Placed.atSlot
    rw [List.lookup_cons, List.lookup_cons]
    cases slot == name with
    | true => exact hask offer stand hoffer
    | false => exact ih

theorem Script.run_isAt {α : Type} {setting : Setting} {id : String}
    {loop : Option String} {inputs branches : List (String × Offer)}
    {inputsAt branchesAt bodiesAt : List (String × Placed)}
    (hinputs : SlotsAt loop inputs inputsAt) (hbranches : SlotsAt loop branches branchesAt)
    (hbodies : SlotsAt (some id) branches bodiesAt) (script : Script α) :
    Synth.IsAt loop (script.run setting id inputs branches)
      (script.runAt setting id loop inputsAt branchesAt bodiesAt) := by
  induction script with
  | done answer => exact Synth.IsAt.pure answer
  | fail fault => exact Synth.IsAt.throw fault
  | value slot rank next ih => exact (hinputs.atSlot slot none fun _ _ h => h.value rank).bind ih
  | statements slot next ih =>
    exact (hbranches.atSlot slot "" fun _ _ h => h.chain).bind fun code => ih _
  | loopBody slot next ih =>
    exact (hbodies.atSlot slot "" fun _ _ h => h.chain).inLoop.bind fun code => ih _
  | enclosingLoop next ih =>
    intro session hloop
    subst hloop
    exact ih session.loops.head? session rfl
  | resolve space name next ih => exact (Synth.IsAt.onLedger _).bind ih
  | fresh name next ih => exact (Synth.IsAt.onLedger _).bind ih
  | helper key template next ih => exact (Synth.IsAt.onLedger _).bind ih
  | require tag text next ih => exact (Synth.IsAt.onLedger _).bind fun _ => ih
  | define name text next ih => exact (Synth.IsAt.onLedger _).bind fun _ => ih

theorem Offer.isAt_ofNode {setting : Setting} {node : Node}
    {loop : Option String} {inputs branches : List (String × Offer)}
    {inputsAt branchesAt bodiesAt : List (String × Placed)} {rest : Synth String}
    {restAt : Stackless String} (hinputs : SlotsAt loop inputs inputsAt)
    (hbranches : SlotsAt loop branches branchesAt)
    (hbodies : SlotsAt (some node.id) branches bodiesAt) (hrest : Synth.IsAt loop rest restAt) :
    (Offer.ofNode setting node inputs branches rest).IsAt loop
      (Placed.ofNode setting node loop inputsAt branchesAt bodiesAt restAt) := by
  have hemission : Synth.IsAt loop (Offer.ofNode setting node inputs branches rest).emission
      (Placed.ofNode setting node loop inputsAt branchesAt bodiesAt restAt).emission := by
    unfold Offer.ofNode Placed.ofNode
    cases setting.target.catalog.find? node.kind with
    | none => exact Synth.IsAt.throw _
    | some emitter => exact Script.run_isAt hinputs hbranches hbodies _
  refine ⟨hemission, fun place => ?_, ?_⟩
  · show Synth.IsAt loop (if node.disabled then _ else _) (if node.disabled then _ else _)
    split
    · exact Synth.IsAt.pure none
    · exact hemission.bind fun emission => Synth.IsAt.ofExcept _
  · have hfollow : ∀ here,
        Synth.IsAt loop (do return here ++ (← rest)) (do return here ++ (← restAt)) :=
      fun here => hrest.bind fun more => Synth.IsAt.pure _
    show Synth.IsAt loop (if node.disabled then _ else _) (if node.disabled then _ else _)
    split
    · exact (Synth.IsAt.pure "").bind hfollow
    · exact hemission.bind fun emission => (Synth.IsAt.ofExcept _).bind hfollow

mutual

/-- Rendered inside of the loop that its way tells, a node makes the offer that it
makes without a stack. -/
theorem Node.offer_isAt (setting : Setting)
    (start : Option String) (way : List Step) (node : Node) :
    (node.offer setting).IsAt ((innermost way).or start) (node.placed setting start way) := by
  obtain ⟨id, kind, fields, inputs, statements, next, comment, disabled, mutation⟩ := node
  refine Offer.isAt_ofNode (slotOffers_at setting start _ inputs fun slot => ?_)
    (slotOffers_at setting start _ statements fun slot => ?_)
    (slotOffers_at setting start _ statements fun slot => ?_)
    (chainOffer_isAt setting start _ next ?_)
  all_goals rw [innermost_concat]
  all_goals rfl
termination_by structural node

theorem slotOffers_at (setting : Setting) (start : Option String) {loop : Option String}
    (way : String → List Step) (slots : List (String × Node))
    (h : ∀ slot, (innermost (way slot)).or start = loop) :
    SlotsAt loop (slotOffers setting slots) (slotsPlaced setting start way slots) := by
  cases slots with
  | nil => exact .nil
  | cons entry rest =>
    obtain ⟨slot, node⟩ := entry
    refine .cons ⟨rfl, ?_⟩ (slotOffers_at setting start way rest h)
    exact h slot ▸ Node.offer_isAt setting start (way slot) node
termination_by structural slots

theorem chainOffer_isAt (setting : Setting) (start : Option String) {loop : Option String}
    (way : List Step) (next : Option Node) (h : (innermost way).or start = loop) :
    Synth.IsAt loop (chainOffer setting next) (chainPlaced setting start way next) := by
  cases next with
  | none => exact Synth.IsAt.pure ""
  | some node => exact h ▸ (Node.offer_isAt setting start way node).chain
termination_by structural next

end

namespace Setting

variable (setting : Setting) (session : Session)

theorem renderValue_eq_placed (node : Option Node) (place : Rank) (fallback : String) :
    setting.renderValue node place fallback session =
      (setting.valuePlaced session.loops.head? node place fallback).synth session := by
  cases node with
  | none => rfl
  | some node =>
    have hvalue := (node.offer_isAt setting session.loops.head? []).value place
    exact (hvalue.bind fun code => Synth.IsAt.pure _) session rfl

theorem renderChain_eq_placed (first : Option Node) :
    setting.renderChain first session =
      (chainPlaced setting session.loops.head? [] first).synth session :=
  chainOffer_isAt setting session.loops.head? [] first rfl session rfl

theorem renderRoot_eq_placed (root : Node) :
    setting.renderRoot root session =
      (setting.rootPlaced session.loops.head? root).synth session := by
  have hnext := chainOffer_isAt setting session.loops.head? [⟨root, .next⟩] root.next rfl
  have hemission := (root.offer_isAt setting session.loops.head? []).emission
  refine (?_ : Synth.IsAt session.loops.head? (setting.renderRoot root) _) session rfl
  unfold renderRoot rootPlaced
  split
  · exact hnext
  · refine hemission.bind fun emission => ?_
    have hfollow : Synth.IsAt session.loops.head?
        (do
          let here ← MonadExcept.ofExcept (emission.asStatement setting root)
          return here ++ (← setting.renderChain root.next))
        (do
          let here ← MonadExcept.ofExcept (emission.asStatement setting root)
          return here ++ (← chainPlaced setting session.loops.head? [⟨root, .next⟩] root.next)) :=
      (Synth.IsAt.ofExcept _).bind fun here => hnext.bind fun more => Synth.IsAt.pure _
    cases emission with
    | value code rank =>
      dsimp only
      split
      · exact Synth.IsAt.pure ""
      · exact Synth.IsAt.pure _
    | statement code => exact hfollow
    | nothing => exact hfollow

end Setting

end BlockSynth
