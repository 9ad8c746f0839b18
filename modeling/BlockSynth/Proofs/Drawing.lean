import BlockSynth.Proofs.Program.Ledger
import BlockSynth.Proofs.Render

/-! # Drawn words

What is emitted may bind words that have been drawn for it, so what is to be said of it depends on
which words those are. A run that succeeds tells: it leaves the ledger where some run of calls does,
and whatever words are kept, as long as all that the calls draw are among them, its answer is as the
contract for these words says.
-/
namespace BlockSynth

/-! ### Temporaries -/

namespace Ledger

/-- The word that a call draws for a use of its own. -/
def drawn (ledger : Ledger) : Call → List String
  | .fresh name => [(ledger.fresh name).1]
  | _ => []

/-- The words that a run of calls has drawn. -/
def temporaries (unit : String) (ledger : Ledger) : List Call → List String
  | [] => []
  | call :: rest => ledger.drawn call ++ temporaries unit (ledger.perform unit call) rest

variable {unit : String}

theorem temporaries_append (ledger : Ledger) (calls more : List Call) :
    temporaries unit ledger (calls ++ more) =
      temporaries unit ledger calls ++ temporaries unit (ledger.after unit calls) more := by
  induction calls generalizing ledger with
  | nil => rfl
  | cons call rest ih => simp [temporaries, ih, after]

end Ledger

open Ledger

/-! ### Steps -/

namespace Synth

variable {α β : Type} {unit : String} {contracts : List String → Contract}
    {given : List String → Prop}

/-- A step that does nothing to the ledger but to call it. Whatever words are kept, its answer is as
wanted if all that it draws are among them and what is given holds of them. -/
def Draws (unit : String) (contracts : List String → Contract) (given : List String → Prop)
    (answer : List String → α → Prop) (step : Synth α) : Prop :=
  ∀ session result next, step session = .ok result next →
    ∃ calls, next.toLedger = session.toLedger.after unit calls ∧
      ∀ kept, temporaries unit session.toLedger calls ⊆ kept →
        given kept → (contracts kept).session session →
        (contracts kept).session next ∧ answer kept result

theorem Draws.pure {answer : List String → α → Prop}
    {result : α} (h : ∀ kept, given kept → answer kept result) :
    Draws unit contracts given answer (Pure.pure result) := by
  rintro session _ _ ⟨⟩
  exact ⟨[], rfl, fun kept _ hgiven hsession => ⟨hsession, h kept hgiven⟩⟩

theorem Draws.throw {answer : List String → α → Prop} (fault : Fault) :
    Draws unit contracts given answer (MonadExcept.throw fault) := by
  rintro session _ _ ⟨⟩

theorem Draws.ofExcept {answer : List String → α → Prop} {result : Except Fault α}
    (h : ∀ value, result = .ok value → ∀ kept, given kept → answer kept value) :
    Draws unit contracts given answer (MonadExcept.ofExcept result) := by
  cases result with
  | error fault => exact Draws.throw fault
  | ok value => exact Draws.pure (h value rfl)

theorem Draws.bind {later : α → List String → Prop} {middle : List String → α → Prop}
    {answer : List String → β → Prop} {step : Synth α} {next : α → Synth β}
    (h : Draws unit contracts given middle step)
    (hnext : ∀ result, Draws unit contracts (later result) answer (next result))
    (hlater : ∀ kept result, given kept → middle kept result → later result kept) :
    Draws unit contracts given answer (step >>= next) := by
  intro session result last hrun
  obtain ⟨between, after, hstep, hrest⟩ := Synth.ok_of_bind hrun
  obtain ⟨calls, hafter, hmiddle⟩ := h session between after hstep
  obtain ⟨others, hlast, hanswer⟩ := hnext between after result last hrest
  refine ⟨calls ++ others, ?_, fun kept hkept hgiven hsession => ?_⟩
  · rw [hlast, hafter]
    exact List.foldl_append.symm
  · rw [temporaries_append, List.append_subset, ← hafter] at hkept
    obtain ⟨hbetween, hresult⟩ := hmiddle kept hkept.1 hgiven hsession
    exact hanswer kept hkept.2 (hlater kept between hgiven hresult) hbetween

/-- More may be given. -/
theorem Draws.weaken {given' : List String → Prop} {answer : List String → α → Prop}
    {step : Synth α} (h : Draws unit contracts given answer step)
    (himp : ∀ kept, given' kept → given kept) :
    Draws unit contracts given' answer step := by
  intro session result next hrun
  obtain ⟨calls, hnext, hanswer⟩ := h session result next hrun
  exact ⟨calls, hnext, fun kept hkept hgiven => hanswer kept hkept (himp kept hgiven)⟩

/-- One call, whose word is kept. -/
theorem Draws.call {answer : List String → α → Prop} {step : Ledger → α × Ledger} (call : Call)
    (hcall : ∀ ledger, (step ledger).2 = ledger.perform unit call)
    (h : ∀ kept session, session.drawn call ⊆ kept → given kept → (contracts kept).session session →
      answer kept (step session.toLedger).1 ∧
        (contracts kept).session { session with toLedger := (step session.toLedger).2 }) :
    Draws unit contracts given answer (onLedger step) := by
  rintro session _ _ ⟨⟩
  refine ⟨[call], hcall _, fun kept hkept hgiven hsession => ?_⟩
  rw [temporaries, temporaries, List.append_nil] at hkept
  exact (h kept session hkept hgiven hsession).symm

theorem Draws.inLoop {answer : List String → α → Prop} {body : Synth α}
    (hloops : ∀ kept session loops,
      (contracts kept).session session → (contracts kept).session { session with loops })
    (h : Draws unit contracts given answer body) (id : String) :
    Draws unit contracts given answer (inLoop id body) := by
  intro session result next hrun
  unfold Synth.inLoop at hrun
  cases hbody : body { session with loops := id :: session.loops } with
  | error fault after => simp [hbody] at hrun
  | ok value after =>
    rw [hbody] at hrun
    obtain ⟨rfl, rfl⟩ := EStateM.Result.ok.inj hrun
    obtain ⟨calls, hafter, hanswer⟩ := h _ value after hbody
    refine ⟨calls, hafter, fun kept hkept hgiven hsession => ?_⟩
    obtain ⟨hnext, hvalue⟩ := hanswer kept hkept hgiven (hloops kept session _ hsession)
    exact ⟨hloops kept after _ hnext, hvalue⟩

end Synth

/-! ### Scripts -/

/-- The terms of a contract that depends on the words that are kept. Only drawn words
can be counted on to be kept. -/
abbrev Contract.keeping (contracts : List String → Contract) (kept : List String) : Terms :=
  (contracts kept).toTerms.drawing (· ∈ kept)

/-- What the engine and the emitters have to do for contracts that depend on the words
that are kept. -/
structure Contract.Supplied (contracts : List String → Contract) (setting : Setting) : Prop where
  observed : ∀ kept, (contracts kept).Observed setting
  emitter : ∀ kept kind emitter, setting.target.catalog.find? kind = some emitter → ∀ node,
    (emitter.script setting.config node).Meets (Contract.keeping contracts kept)
    (contracts kept).emission

/-- A step of the engine whose answer is as the contracts say, whatever is given. -/
def Synth.DrawsFor {α : Type} (contracts : List String → Contract) (setting : Setting)
    (answer : Contract → α → Prop) (step : Synth α) : Prop :=
  ∀ given, step.Draws setting.config.indentUnit contracts given fun kept => answer (contracts kept)

structure Contract.DrawnBy (contracts : List String → Contract) (setting : Setting)
    (offer : Offer) : Prop where
  emission : offer.emission.DrawsFor contracts setting Contract.emission
  value : ∀ place, (offer.value place).DrawsFor contracts setting fun contract code =>
    ∀ text ∈ code, contract.value place text
  chain : offer.chain.DrawsFor contracts setting Contract.chain

namespace Contract.Supplied

variable {contracts : List String → Contract} {setting : Setting}

theorem atSlot {α : Type} {answer : Contract → α → Prop}
    {slots : List (String × Offer)} {slot : String} {empty : α} {ask : Offer → Synth α}
    (hslots : ∀ entry ∈ slots, Contract.DrawnBy contracts setting entry.2)
    (hempty : ∀ kept, answer (contracts kept) empty)
    (hask : ∀ offer, Contract.DrawnBy contracts setting offer →
      (ask offer).DrawsFor contracts setting answer) :
    (Script.atSlot slots slot empty ask).DrawsFor contracts setting answer := by
  unfold Script.atSlot
  cases hlookup : slots.lookup slot with
  | none => exact fun _ => Synth.Draws.pure fun kept _ => hempty kept
  | some offer => exact hask offer (hslots (slot, offer) (Keyed.mem_of_lookup hlookup))

/-- A script that meets its goal is run to it. -/
theorem run (h : Contract.Supplied contracts setting) {α : Type}
    {goal : List String → α → Prop} {id : String} {inputs branches : List (String × Offer)}
    (hinputs : ∀ entry ∈ inputs, Contract.DrawnBy contracts setting entry.2)
    (hbranches : ∀ entry ∈ branches, Contract.DrawnBy contracts setting entry.2)
    (script : Script α) :
    (script.run setting id inputs branches).Draws setting.config.indentUnit contracts
      (fun kept => script.Meets (Contract.keeping contracts kept) (goal kept)) goal := by
  have hvalue : ∀ slot rank,
      (Script.atSlot inputs slot none fun offer => offer.value rank).DrawsFor contracts setting
      fun contract code => ∀ text ∈ code, contract.value rank text :=
    fun slot rank =>
      atSlot hinputs (fun _ text htext => by simp at htext) fun offer hoffer => hoffer.value rank
  have hchain : ∀ slot,
      (Script.atSlot branches slot "" Offer.chain).DrawsFor contracts setting Contract.chain :=
    fun slot =>
      atSlot hbranches (fun kept => (h.observed kept).chain_nil) fun offer hoffer => hoffer.chain
  induction script with
  | done answer => exact Synth.Draws.pure fun _ hmeets => hmeets
  | fail fault => exact Synth.Draws.throw fault
  | value slot rank next ih =>
    exact (hvalue slot rank _).bind ih fun kept code hmeets hcode => hmeets code hcode
  | statements slot next ih =>
    exact (hchain slot _).bind (fun code => ih _) fun kept code hmeets hcode =>
      hmeets _ ((h.observed kept).lines slot code hcode)
  | loopBody slot next ih =>
    refine ((hchain slot _).inLoop (fun kept => (h.observed kept).loops) id).bind
      (fun code => ih _) ?_
    exact fun kept code hmeets hcode => hmeets _ ((h.observed kept).loopBody slot code id hcode)
  | enclosingLoop next ih =>
    intro session
    exact (ih session.loops.head?).weaken
      (fun kept hmeets => hmeets _ ((h.observed kept).loop _)) session
  | resolve space name next ih =>
    refine Synth.Draws.bind (Synth.Draws.call (.resolve space name) (fun _ => rfl) ?_) ih
      fun kept word hmeets hword => hmeets word hword
    exact fun kept session _ _ hsession => (h.observed kept).resolve session space name hsession
  | fresh name next ih =>
    refine Synth.Draws.bind (Synth.Draws.call (.fresh name) (fun _ => rfl) ?_) ih
      fun kept word hmeets hword => hmeets word hword
    intro kept session hkept _ hsession
    obtain ⟨hword, hnext⟩ := (h.observed kept).fresh session name hsession
    exact ⟨⟨hword, hkept (List.mem_singleton_self _)⟩, hnext⟩
  | helper key template next ih =>
    refine Synth.Draws.bind (Synth.Draws.call (.provide key template) (fun _ => rfl) ?_) ih
      fun kept word hmeets hword => hmeets.2 word hword
    exact fun kept session _ hmeets hsession =>
      (h.observed kept).provide session key template hmeets.1 hsession
  | require tag text next ih =>
    have hstep := @Synth.Draws.call Unit setting.config.indentUnit contracts _ (fun _ _ => True)
      (fun ledger => ((), ledger.require tag text)) (.require tag text) (fun _ => rfl)
      fun kept session _ (hmeets : (Script.require tag text next).Meets (keeping contracts kept)
        (goal kept)) hsession =>
        ⟨trivial, (h.observed kept).require session tag text hmeets.1 hsession⟩
    exact hstep.bind (fun _ => ih) fun kept _ hmeets _ => hmeets.2
  | define name text next ih =>
    have hstep := @Synth.Draws.call Unit setting.config.indentUnit contracts _ (fun _ _ => True)
      (fun ledger => ((), ledger.define name text)) (.define name text) (fun _ => rfl)
      fun kept session _ (hmeets : (Script.define name text next).Meets (keeping contracts kept)
        (goal kept)) hsession =>
        ⟨trivial, (h.observed kept).define session name text hmeets.1 hsession⟩
    exact hstep.bind (fun _ => ih) fun kept _ hmeets _ => hmeets.2

/-! ### Offers -/

/-- What is emitted, and what follows it, is a chain. -/
theorem follow (h : Contract.Supplied contracts setting) {rest : Synth String}
    (hrest : rest.DrawsFor contracts setting Contract.chain) (here : String) :
    Synth.Draws setting.config.indentUnit contracts (fun kept => (contracts kept).chain here)
      (fun kept => (contracts kept).chain) (do return here ++ (← rest)) := by
  have hwhole : ∀ more, Synth.Draws setting.config.indentUnit contracts
      (fun kept => (contracts kept).chain here ∧ (contracts kept).chain more)
        (fun kept => (contracts kept).chain)
      (pure (here ++ more)) :=
    fun more => Synth.Draws.pure fun kept hboth =>
      (h.observed kept).chain_append here more hboth.1 hboth.2
  exact (hrest _).bind hwhole fun _ _ hhere hmore => ⟨hhere, hmore⟩

/-- An emission as a statement, and what follows it. -/
theorem statement (h : Contract.Supplied contracts setting) (node : Node) {rest : Synth String}
    (hrest : rest.DrawsFor contracts setting Contract.chain) (emission : Emission) :
    Synth.Draws setting.config.indentUnit contracts (fun kept => (contracts kept).emission emission)
      (fun kept => (contracts kept).chain) (do
        let here ← MonadExcept.ofExcept (emission.asStatement setting node)
        return here ++ (← rest)) := by
  refine Synth.Draws.bind (Synth.Draws.ofExcept fun text htext kept hholds => ?_) (h.follow hrest)
    fun _ _ _ hhere => hhere
  exact (h.observed kept).statement emission node text hholds htext

theorem ofNode (h : Contract.Supplied contracts setting) (node : Node)
    {inputs branches : List (String × Offer)} {rest : Synth String}
    (hinputs : ∀ entry ∈ inputs, Contract.DrawnBy contracts setting entry.2)
    (hbranches : ∀ entry ∈ branches, Contract.DrawnBy contracts setting entry.2)
    (hrest : rest.DrawsFor contracts setting Contract.chain) :
    Contract.DrawnBy contracts setting (Offer.ofNode setting node inputs branches rest) := by
  have hemission : (Offer.ofNode setting node inputs branches rest).emission.DrawsFor contracts
      setting Contract.emission := by
    intro given
    unfold Offer.ofNode
    cases hfind : setting.target.catalog.find? node.kind with
    | none => exact Synth.Draws.throw _
    | some emitter =>
      exact (h.run hinputs hbranches _).weaken fun kept _ => h.emitter kept _ emitter hfind node
  refine ⟨hemission, fun place given => ?_, fun given => ?_⟩
  · show Synth.Draws _ _ _ _ (if node.disabled then _ else _)
    split
    · exact Synth.Draws.pure fun _ _ text htext => by simp at htext
    · have hvalue : ∀ emission, Synth.Draws setting.config.indentUnit contracts
          (fun kept => (contracts kept).emission emission)
          (fun kept code => ∀ text ∈ code, (contracts kept).value place text)
          (MonadExcept.ofExcept (emission.asValue node place)) := by
        refine fun emission => Synth.Draws.ofExcept fun code hcode kept hholds text htext => ?_
        obtain rfl : code = some text := htext
        obtain ⟨code, rank, rfl, hne, rfl⟩ := Emission.exists_value_of_asValue hcode
        exact (h.observed kept).wrap code rank place hholds hne
      exact (hemission given).bind hvalue fun _ _ _ hholds => hholds
  · show Synth.Draws _ _ _ _ (if node.disabled then _ else _)
    split
    · exact (Synth.Draws.pure fun kept _ => (h.observed kept).chain_nil).bind (h.follow hrest)
        fun _ _ _ hhere => hhere
    · exact (hemission given).bind (h.statement node hrest) fun _ _ _ hholds => hholds

mutual

theorem offer (h : Contract.Supplied contracts setting) (node : Node) :
    Contract.DrawnBy contracts setting (node.offer setting) := by
  obtain ⟨id, kind, fields, inputs, statements, next, comment, disabled, mutation⟩ := node
  exact h.ofNode _ (slotOffers_drawn h inputs) (slotOffers_drawn h statements)
    (chainOffer_draws h next)
termination_by structural node

theorem slotOffers_drawn (h : Contract.Supplied contracts setting) (slots : List (String × Node)) :
    ∀ entry ∈ slotOffers setting slots, Contract.DrawnBy contracts setting entry.2 := by
  cases slots with
  | nil => exact List.forall_mem_nil _
  | cons entry rest =>
    obtain ⟨slot, node⟩ := entry
    exact List.forall_mem_cons.mpr ⟨offer h node, slotOffers_drawn h rest⟩
termination_by structural slots

theorem chainOffer_draws (h : Contract.Supplied contracts setting) (next : Option Node) :
    (chainOffer setting next).DrawsFor contracts setting Contract.chain := by
  cases next with
  | none => exact fun _ => Synth.Draws.pure fun kept _ => (h.observed kept).chain_nil
  | some node => exact (offer h node).chain
termination_by structural next

end

/-! ### Roots -/

theorem renderRoot (h : Contract.Supplied contracts setting) (root : Node) :
    (setting.renderRoot root).DrawsFor contracts setting Contract.chain := by
  intro given
  unfold Setting.renderRoot
  split
  · exact h.chainOffer_draws root.next given
  · refine ((h.offer root).emission given).bind (fun emission => ?_) fun _ _ _ hholds => hholds
    cases emission with
    | value code rank =>
      show Synth.Draws _ _ _ _ (if code = "" then _ else _)
      split
      · exact Synth.Draws.pure fun kept _ => (h.observed kept).chain_nil
      · rename_i hne
        exact Synth.Draws.pure fun kept hholds => (h.observed kept).naked root code rank hholds hne
    | statement code => exact h.statement root (h.chainOffer_draws root.next) _
    | nothing => exact h.statement root (h.chainOffer_draws root.next) _

theorem renderRoots (h : Contract.Supplied contracts setting) (roots : List Node) :
    (setting.renderRoots roots).DrawsFor contracts setting fun contract codes =>
      ∀ code ∈ codes, contract.chain code := by
  intro given
  induction roots generalizing given with
  | nil => exact Synth.Draws.pure fun _ _ => List.forall_mem_nil _
  | cons root rest ih =>
    have hwhole : ∀ code codes, Synth.Draws setting.config.indentUnit contracts
        (fun kept => (contracts kept).chain code ∧ ∀ code ∈ codes, (contracts kept).chain code)
        (fun kept codes => ∀ code ∈ codes, (contracts kept).chain code)
        (pure (if code = "" then codes else code :: codes)) := by
      refine fun code codes => Synth.Draws.pure fun kept hboth => ?_
      split
      · exact hboth.2
      · exact List.forall_mem_cons.mpr hboth
    have hcodes : ∀ code,
        Synth.Draws setting.config.indentUnit contracts (fun kept => (contracts kept).chain code)
        (fun kept codes => ∀ code ∈ codes, (contracts kept).chain code) (do
          let codes ← setting.renderRoots rest
          return if code = "" then codes else code :: codes) :=
      fun code => (ih _).bind (hwhole code) fun _ _ hcode hcodes => ⟨hcode, hcodes⟩
    exact (h.renderRoot root given).bind hcodes fun _ _ _ hcode => hcode

end Contract.Supplied

end BlockSynth
