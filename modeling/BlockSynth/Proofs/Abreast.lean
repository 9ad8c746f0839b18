import BlockSynth.Proofs.Graph.Silenced
import BlockSynth.Proofs.Pace
import BlockSynth.Proofs.Program.Ledger
import BlockSynth.Proofs.Render

/-! # Runs with and without comments

A workspace is rendered beside the same workspace without its comments. If the scripts of all
emitters keep pace with each other when their slots do, then the two runs ask for the same things in
the same order, fail at the same place, and write texts that go together.
-/
namespace BlockSynth

variable {manner : Manner}

/-! ### Sessions -/

def Manner.Entries (manner : Manner) :
    List (DefinitionKey × String) → List (DefinitionKey × String) → Prop :=
  List.Forall₂ fun entry entry' => entry.1 = entry'.1 ∧ manner.definition entry.2 entry'.2

/-- Sessions that differ in the texts of their definitions at most. -/
structure Manner.Sessions (manner : Manner) (session other : Session) : Prop where
  names : session.names = other.names
  helpers : session.helpers = other.helpers
  loops : session.loops = other.loops
  entries : manner.Entries session.definitions.entries other.definitions.entries

theorem Manner.Entries.insert {entries entries' : List (DefinitionKey × String)}
    (h : manner.Entries entries entries') {text text' : String}
    (htext : manner.definition text text') (key : DefinitionKey) :
    manner.Entries (Definitions.insertEntry key text entries)
      (Definitions.insertEntry key text' entries') := by
  induction h with
  | nil => exact .cons ⟨rfl, htext⟩ .nil
  | @cons entry entry' rest rest' hentry hrest ih =>
    unfold Definitions.insertEntry
    rw [← hentry.1]
    split
    · exact .cons ⟨rfl, htext⟩ hrest
    · exact .cons hentry ih

theorem Manner.Entries.any_eq {entries entries' : List (DefinitionKey × String)}
    (h : manner.Entries entries entries') (key : DefinitionKey) :
    entries.any (·.1 == key) = entries'.any (·.1 == key) := by
  induction h with
  | nil => rfl
  | cons hentry _ ih => rw [List.any_cons, List.any_cons, hentry.1, ih]

/-- The texts under the keys of one sort go together. -/
theorem Manner.Entries.texts {entries entries' : List (DefinitionKey × String)}
    (h : manner.Entries entries entries') (keep : DefinitionKey → Bool) :
    List.Forall₂ manner.definition
      ((entries.filter fun entry => keep entry.1).map Prod.snd)
      ((entries'.filter fun entry => keep entry.1).map Prod.snd) := by
  induction h with
  | nil => exact .nil
  | @cons entry entry' rest rest' hentry _ ih =>
    rw [List.filter_cons, List.filter_cons, ← hentry.1]
    split
    · exact .cons hentry.2 ih
    · exact ih

/-! ### Steps -/

namespace Synth

variable {α β : Type}

/-- From sessions that are abreast both steps give answers that go together, or the same fault, and
sessions that are abreast again. -/
def Abreast (manner : Manner) (answer : α → α → Prop) (step other : Synth α) : Prop :=
  ∀ session session', manner.Sessions session session' → match step session, other session' with
    | .ok result next, .ok result' next' => answer result result' ∧ manner.Sessions next next'
    | .error fault next, .error fault' next' => fault = fault' ∧ manner.Sessions next next'
    | _, _ => False

namespace Abreast

variable {answer : α → α → Prop}

theorem pure {result result' : α} (h : answer result result') :
    Abreast manner answer (Pure.pure result) (Pure.pure result') :=
  fun _ _ hsession => ⟨h, hsession⟩

theorem throw (fault : Fault) :
    Abreast manner answer (MonadExcept.throw fault) (MonadExcept.throw fault) :=
  fun _ _ hsession => ⟨rfl, hsession⟩

theorem bind {answer : β → β → Prop} {middle : α → α → Prop} {step other : Synth α}
    {next next' : α → Synth β} (h : Abreast manner middle step other)
    (hnext : ∀ result result',
      middle result result' → Abreast manner answer (next result) (next' result')) :
    Abreast manner answer (step >>= next) (other >>= next') := by
  intro session session' hsession
  have hstep := h session session' hsession
  show match EStateM.bind step next session, EStateM.bind other next' session' with
    | .ok result next, .ok result' next' => answer result result' ∧ manner.Sessions next next'
    | .error fault next, .error fault' next' => fault = fault' ∧ manner.Sessions next next'
    | _, _ => False
  unfold EStateM.bind
  cases hrun : step session with
  | ok result after =>
    cases hother : other session' with
    | ok result' after' =>
      rw [hrun, hother] at hstep
      exact hnext result result' hstep.1 after after' hstep.2
    | error fault' after' =>
      rw [hrun, hother] at hstep
      exact hstep.elim
  | error fault after =>
    cases hother : other session' with
    | ok result' after' =>
      rw [hrun, hother] at hstep
      exact hstep.elim
    | error fault' after' =>
      rw [hrun, hother] at hstep
      exact hstep

/-- What is done with the same answer. -/
theorem bind_same {answer : β → β → Prop} {step other : Synth α}
    {next next' : α → Synth β} (h : Abreast manner (· = ·) step other)
    (hnext : ∀ result, Abreast manner answer (next result) (next' result)) :
    Abreast manner answer (step >>= next) (other >>= next') := by
  refine h.bind fun result result' hresult => ?_
  subst hresult
  exact hnext result

theorem ofExcept {result result' : Except Fault α} (h : match result, result' with
      | .ok value, .ok value' => answer value value'
      | .error fault, .error fault' => fault = fault'
      | _, _ => False) :
    Abreast manner answer (MonadExcept.ofExcept result) (MonadExcept.ofExcept result') := by
  cases result with
  | ok value =>
    cases result' with
    | ok value' => exact pure h
    | error fault' => exact h.elim
  | error fault =>
    cases result' with
    | ok value' => exact h.elim
    | error fault' =>
      obtain rfl : fault = fault' := h
      exact throw fault

theorem onLedger {step other : Ledger → α × Ledger}
    (h : ∀ session session', manner.Sessions session session' →
      answer (step session.toLedger).1 (other session'.toLedger).1 ∧
        manner.Sessions { session with toLedger := (step session.toLedger).2 }
          { session' with toLedger := (other session'.toLedger).2 }) :
    Abreast manner answer (onLedger step) (onLedger other) :=
  h

theorem inLoop {body other : Synth α} (h : Abreast manner answer body other) (id : String) :
    Abreast manner answer (inLoop id body) (inLoop id other) := by
  intro session session' hsession
  have hentered : manner.Sessions { session with loops := id :: session.loops }
      { session' with loops := id :: session'.loops } :=
    ⟨hsession.names, hsession.helpers, congrArg (id :: ·) hsession.loops, hsession.entries⟩
  have hleft : ∀ {after after' : Session}, manner.Sessions after after' →
      manner.Sessions { after with loops := after.loops.tail }
        { after' with loops := after'.loops.tail } :=
    fun hafter => ⟨hafter.names, hafter.helpers, congrArg List.tail hafter.loops, hafter.entries⟩
  have hbody := h _ _ hentered
  unfold Synth.inLoop
  revert hbody
  cases body { session with loops := id :: session.loops } with
  | ok result after =>
    cases other { session' with loops := id :: session'.loops } with
    | ok result' after' => exact fun hbody => ⟨hbody.1, hleft hbody.2⟩
    | error fault' after' => exact False.elim
  | error fault after =>
    cases other { session' with loops := id :: session'.loops } with
    | ok result' after' => exact False.elim
    | error fault' after' => exact fun hbody => ⟨hbody.1, hleft hbody.2⟩

end Abreast

end Synth

open Synth (Abreast)

/-! ### Ledgers -/

namespace Manner.Sessions

variable {session session' : Session}

theorem resolve (h : manner.Sessions session session') (space : Namespace) (name : String) :
    (session.resolve space name).1 = (session'.resolve space name).1 ∧
      manner.Sessions { session with toLedger := (session.resolve space name).2 }
        { session' with toLedger := (session'.resolve space name).2 } := by
  unfold Ledger.resolve
  rw [h.names]
  exact ⟨rfl, rfl, h.helpers, h.loops, h.entries⟩

theorem fresh (h : manner.Sessions session session') (name : String) :
    (session.fresh name).1 = (session'.fresh name).1 ∧
      manner.Sessions { session with toLedger := (session.fresh name).2 }
        { session' with toLedger := (session'.fresh name).2 } := by
  unfold Ledger.fresh
  rw [h.names]
  exact ⟨rfl, rfl, h.helpers, h.loops, h.entries⟩

theorem provide (h : manner.Sessions session session')
    (hdefinition : ∀ text, manner.definition text text) (unit key template : String) :
    (session.provide unit key template).1 = (session'.provide unit key template).1 ∧
      manner.Sessions { session with toLedger := (session.provide unit key template).2 }
        { session' with toLedger := (session'.provide unit key template).2 } := by
  cases hlookup : session.helpers.lookup key template with
  | some name =>
    have hlookup' : session'.helpers.lookup key template = some name := by rw [← h.helpers, hlookup]
    rw [Ledger.provide_of_lookup hlookup, Ledger.provide_of_lookup hlookup']
    exact ⟨rfl, h⟩
  | none =>
    have hlookup' : session'.helpers.lookup key template = none := by rw [← h.helpers, hlookup]
    rw [Ledger.provide_of_not_lookup hlookup, Ledger.provide_of_not_lookup hlookup',
      h.names, h.helpers]
    exact ⟨rfl, rfl, rfl, h.loops, h.entries.insert (hdefinition _) _⟩

theorem require (h : manner.Sessions session session')
    (hdefinition : ∀ text, manner.definition text text) (tag text : String) :
    manner.Sessions { session with toLedger := session.require tag text }
      { session' with toLedger := session'.require tag text } := by
  have hcontains : session.definitions.contains (.importing tag) =
      session'.definitions.contains (.importing tag) :=
    h.entries.any_eq (.importing tag)
  unfold Ledger.require Definitions.insertIfAbsent
  rw [hcontains]
  split
  · exact ⟨h.names, h.helpers, h.loops, h.entries⟩
  · exact ⟨h.names, h.helpers, h.loops, h.entries.insert (hdefinition text) _⟩

theorem define (h : manner.Sessions session session') {text text' : String}
    (htext : manner.definition text text') (name : String) :
    manner.Sessions { session with toLedger := session.define name text }
      { session' with toLedger := session'.define name text' } :=
  ⟨h.names, h.helpers, h.loops, h.entries.insert htext _⟩

end Manner.Sessions

/-! ### Runs of scripts -/

/-- What a manner has to be like in a setting. -/
structure Manner.Suits (manner : Manner) (setting : Setting) : Prop where
  chain_nil : manner.chain "" ""
  chain_append : ∀ {code code' more more'}, manner.chain code code' → manner.chain more more' →
    manner.chain (code ++ more) (code' ++ more')
  chain_empty : ∀ {code code'}, manner.chain code code' → (code = "" ↔ code' = "")
  lines : ∀ {code code'}, manner.chain code code' →
    manner.chain (Text.prefixLines setting.config.indentUnit code)
    (Text.prefixLines setting.config.indentUnit code')
  loopBody : ∀ {code code'} id, manner.chain code code' →
    manner.chain (setting.trapLoop (Text.prefixLines setting.config.indentUnit code) id)
      (setting.trapLoop (Text.prefixLines setting.config.indentUnit code') id)
  statement : ∀ {code code'} (node : Node) (selfInjecting : Bool), manner.statement code code' →
    let injected := fun code =>
      if selfInjecting then code else setting.before node.id ++ code ++ setting.after node.id
    manner.chain (setting.comments node ++ injected code)
      (setting.comments node.silenced ++ injected code')
  naked : ∀ (node : Node) (code : String), code ≠ "" →
    let line := fun comments =>
      comments ++ setting.before node.id ++ setting.target.nakedValue code ++ setting.after node.id
    manner.chain (line (setting.comments node)) (line (setting.comments node.silenced))
  definition : ∀ text, manner.definition text text
  emitter : ∀ kind emitter, setting.target.catalog.find? kind = some emitter → ∀ node : Node,
    (emitter.script setting.config node).Paced manner manner.Emits
    (emitter.script setting.config node.silenced)

structure Offer.Abreast (manner : Manner) (offer other : Offer) : Prop where
  emission : Synth.Abreast manner manner.Emits offer.emission other.emission
  value : ∀ place, Synth.Abreast manner (· = ·) (offer.value place) (other.value place)
  chain : Synth.Abreast manner manner.chain offer.chain other.chain

/-- Slots of the same names whose offers are abreast. -/
def Manner.Slots (manner : Manner) : List (String × Offer) → List (String × Offer) → Prop :=
  List.Forall₂ fun slot slot' => slot.1 = slot'.1 ∧ slot.2.Abreast manner slot'.2

namespace Manner.Suits

variable {setting : Setting} {α : Type}

theorem atSlot {answer : α → α → Prop} {slots slots' : List (String × Offer)}
    (hslots : manner.Slots slots slots') (slot : String) {empty : α}
    (hempty : answer empty empty) {ask : Offer → Synth α}
    (hask : ∀ offer other : Offer,
      offer.Abreast manner other → Abreast manner answer (ask offer) (ask other)) :
    Abreast manner answer (Script.atSlot slots slot empty ask)
      (Script.atSlot slots' slot empty ask) := by
  induction hslots with
  | nil => exact Abreast.pure hempty
  | @cons entry entry' rest rest' hentry _ ih =>
    unfold Script.atSlot at ih ⊢
    rw [List.lookup_cons, List.lookup_cons, ← hentry.1]
    cases slot == entry.1 with
    | true => exact hask _ _ hentry.2
    | false => exact ih

theorem run (h : manner.Suits setting) {goal : α → α → Prop} {id : String}
    {inputs inputs' branches branches' : List (String × Offer)}
    (hinputs : manner.Slots inputs inputs') (hbranches : manner.Slots branches branches')
    {script other : Script α} (hscript : script.Paced manner goal other) :
    Abreast manner goal (script.run setting id inputs branches)
      (other.run setting id inputs' branches') := by
  have hchain : ∀ slot, Abreast manner manner.chain (Script.atSlot branches slot "" Offer.chain)
      (Script.atSlot branches' slot "" Offer.chain) :=
    fun slot => atSlot hbranches slot h.chain_nil fun _ _ hoffer => hoffer.chain
  induction hscript with
  | done hgoal => exact Abreast.pure hgoal
  | fail fault => exact Abreast.throw fault
  | value slot rank _ ih =>
    have hvalue : Abreast manner (· = ·)
        (Script.atSlot inputs slot none fun offer => offer.value rank)
        (Script.atSlot inputs' slot none fun offer => offer.value rank) :=
      atSlot hinputs slot rfl fun _ _ hoffer => hoffer.value rank
    exact hvalue.bind_same ih
  | statements slot _ ih => exact (hchain slot).bind fun _ _ hcode => ih _ _ (h.lines hcode)
  | loopBody slot _ ih =>
    exact ((hchain slot).inLoop id).bind fun _ _ hcode => ih _ _ (h.loopBody id hcode)
  | @enclosingLoop next next' _ ih =>
    intro session session' hsession
    show match (next session.loops.head?).run setting id inputs branches session,
      (next' session'.loops.head?).run setting id inputs' branches' session' with
      | .ok result next, .ok result' next' => goal result result' ∧ manner.Sessions next next'
      | .error fault next, .error fault' next' => fault = fault' ∧ manner.Sessions next next'
      | _, _ => False
    rw [hsession.loops]
    exact ih _ session session' hsession
  | resolve space name _ ih =>
    have hstep : Abreast manner (· = ·) (Synth.onLedger (·.resolve space name))
        (Synth.onLedger (·.resolve space name)) :=
      Abreast.onLedger fun _ _ hsession => hsession.resolve space name
    exact hstep.bind_same ih
  | fresh name _ ih =>
    have hstep : Abreast manner (· = ·) (Synth.onLedger (·.fresh name))
        (Synth.onLedger (·.fresh name)) :=
      Abreast.onLedger fun _ _ hsession => hsession.fresh name
    exact hstep.bind_same ih
  | helper key template _ ih =>
    have hstep : Abreast manner (· = ·)
        (Synth.onLedger (·.provide setting.config.indentUnit key template))
        (Synth.onLedger (·.provide setting.config.indentUnit key template)) :=
      Abreast.onLedger fun _ _ hsession => hsession.provide h.definition _ key template
    exact hstep.bind_same ih
  | require tag text _ ih =>
    have hstep : Abreast manner (· = ·) (Synth.onLedger fun ledger => ((), ledger.require tag text))
        (Synth.onLedger fun ledger => ((), ledger.require tag text)) :=
      Abreast.onLedger fun _ _ hsession => ⟨rfl, hsession.require h.definition tag text⟩
    exact hstep.bind_same fun _ => ih
  | @define name text text' _ _ htext _ ih =>
    have hstep : Abreast manner (· = ·) (Synth.onLedger fun ledger => ((), ledger.define name text))
        (Synth.onLedger fun ledger => ((), ledger.define name text')) :=
      Abreast.onLedger fun _ _ hsession => ⟨rfl, hsession.define htext name⟩
    exact hstep.bind_same fun _ => ih

theorem sessions_self (h : manner.Suits setting) (session : Session) :
    manner.Sessions session session :=
  ⟨rfl, rfl, rfl, List.forall₂_same.mpr fun entry _ => ⟨rfl, h.definition entry.2⟩⟩

/-! ### Nodes -/

theorem asValue (node : Node) (place : Rank) {emission emission' : Emission}
    (hemits : manner.Emits emission emission') :
    Abreast manner (· = ·) (MonadExcept.ofExcept (emission.asValue node place))
      (MonadExcept.ofExcept (emission'.asValue node.silenced place)) := by
  apply Abreast.ofExcept
  cases emission with
  | value code rank =>
    cases emission' with
    | value code' rank' =>
      obtain ⟨rfl, rfl⟩ := hemits
      rfl
    | _ => exact hemits.elim
  | statement code =>
    cases emission' with
    | statement code' => exact (node.ofShape_silenced .value).symm
    | _ => exact hemits.elim
  | nothing =>
    cases emission' with
    | nothing => exact (node.ofShape_silenced .value).symm
    | _ => exact hemits.elim

theorem asStatement (h : manner.Suits setting) (node : Node) {emission emission' : Emission}
    (hemits : manner.Emits emission emission') :
    Abreast manner manner.chain (MonadExcept.ofExcept (emission.asStatement setting node))
      (MonadExcept.ofExcept (emission'.asStatement setting node.silenced)) := by
  apply Abreast.ofExcept
  cases emission with
  | value code rank =>
    cases emission' with
    | value code' rank' => exact (node.ofShape_silenced .statement).symm
    | _ => exact hemits.elim
  | statement code =>
    cases emission' with
    | statement code' =>
      have hchain :=
        h.statement node ((setting.target.catalog.find? node.kind).any Emitter.selfInjecting) hemits
      simp only [Emission.asStatement, node.silenced_kind, node.silenced_id]
      exact hchain
    | _ => exact hemits.elim
  | nothing =>
    cases emission' with
    | nothing => exact h.chain_nil
    | _ => exact hemits.elim

theorem ofNode (h : manner.Suits setting) (node : Node)
    {inputs inputs' branches branches' : List (String × Offer)}
    {rest rest' : Synth String} (hinputs : manner.Slots inputs inputs')
    (hbranches : manner.Slots branches branches') (hrest : Abreast manner manner.chain rest rest') :
    (Offer.ofNode setting node inputs branches rest).Abreast manner
      (Offer.ofNode setting node.silenced inputs' branches' rest') := by
  have hemission : Abreast manner manner.Emits
      (Offer.ofNode setting node inputs branches rest).emission
      (Offer.ofNode setting node.silenced inputs' branches' rest').emission := by
    unfold Offer.ofNode
    rw [node.silenced_kind, node.silenced_id, node.ofKind_silenced]
    cases hfind : setting.target.catalog.find? node.kind with
    | none => exact Abreast.throw _
    | some emitter => exact h.run hinputs hbranches (h.emitter _ emitter hfind node)
  refine ⟨hemission, fun place => ?_, ?_⟩
  · show Abreast manner _ (if node.disabled then pure none else _)
      (if node.silenced.disabled then pure none else _)
    rw [node.silenced_disabled]
    split
    · exact Abreast.pure rfl
    · exact hemission.bind fun _ _ hemits => asValue node place hemits
  · have hfollow : ∀ here here', manner.chain here here' →
        Abreast manner manner.chain (do return here ++ (← rest))
          (do return here' ++ (← rest')) := by
      intro here here' hhere
      exact hrest.bind fun _ _ hmore => Abreast.pure (h.chain_append hhere hmore)
    show Abreast manner _ (if node.disabled then _ else _) (if node.silenced.disabled then _ else _)
    rw [node.silenced_disabled]
    split
    · exact (Abreast.pure h.chain_nil).bind hfollow
    · exact hemission.bind fun _ _ hemits => (h.asStatement node hemits).bind hfollow

mutual

theorem offer (h : manner.Suits setting) (node : Node) :
    (node.offer setting).Abreast manner (node.silenced.offer setting) := by
  obtain ⟨id, kind, fields, inputs, statements, next, comment, disabled, mutation⟩ := node
  exact h.ofNode _ (slotOffers_abreast h inputs) (slotOffers_abreast h statements)
    (chainOffer_abreast h next)
termination_by structural node

theorem slotOffers_abreast (h : manner.Suits setting) (slots : List (String × Node)) :
    manner.Slots (slotOffers setting slots) (slotOffers setting (silencedSlots slots)) := by
  cases slots with
  | nil => exact .nil
  | cons entry rest =>
    obtain ⟨slot, node⟩ := entry
    exact .cons ⟨rfl, offer h node⟩ (slotOffers_abreast h rest)
termination_by structural slots

theorem chainOffer_abreast (h : manner.Suits setting) (first : Option Node) :
    Abreast manner manner.chain (chainOffer setting first)
      (chainOffer setting (silencedChain first)) := by
  cases first with
  | none => exact Abreast.pure h.chain_nil
  | some node => exact (offer h node).chain
termination_by structural first

end

/-! ### Roots -/

theorem renderRoot (h : manner.Suits setting) (root : Node) :
    Abreast manner manner.chain (setting.renderRoot root) (setting.renderRoot root.silenced) := by
  unfold Setting.renderRoot
  rw [root.silenced_disabled, root.silenced_next]
  split
  · exact h.chainOffer_abreast root.next
  · refine (h.offer root).emission.bind fun emission emission' hemits => ?_
    have hstatement : Abreast manner manner.chain (do
        let here ← MonadExcept.ofExcept (emission.asStatement setting root)
        return here ++ (← setting.renderChain root.next)) (do
        let here ← MonadExcept.ofExcept (emission'.asStatement setting root.silenced)
        return here ++ (← setting.renderChain (silencedChain root.next))) :=
      (h.asStatement root hemits).bind fun _ _ hhere =>
        (h.chainOffer_abreast root.next).bind fun _ _ hmore =>
        Abreast.pure (h.chain_append hhere hmore)
    cases emission with
    | value code rank =>
      cases emission' with
      | value code' rank' =>
        obtain ⟨rfl, rfl⟩ := hemits
        show Abreast manner manner.chain (if code = "" then _ else _) (if code = "" then _ else _)
        split
        · exact Abreast.pure h.chain_nil
        · rename_i hne
          rw [root.silenced_id]
          exact Abreast.pure (h.naked root code hne)
      | _ => exact hemits.elim
    | statement code =>
      cases emission' with
      | statement code' => exact hstatement
      | _ => exact hemits.elim
    | nothing =>
      cases emission' with
      | nothing => exact hstatement
      | _ => exact hemits.elim

theorem renderRoots (h : manner.Suits setting) (roots : List Node) :
    Abreast manner (List.Forall₂ manner.chain) (setting.renderRoots roots)
      (setting.renderRoots (roots.map Node.silenced)) := by
  induction roots with
  | nil => exact Abreast.pure .nil
  | cons root rest ih =>
    refine (h.renderRoot root).bind fun code code' hcode => ih.bind fun codes codes' hcodes => ?_
    apply Abreast.pure
    simp only [h.chain_empty hcode]
    split
    · exact hcodes
    · exact .cons hcode hcodes

end Manner.Suits

end BlockSynth
