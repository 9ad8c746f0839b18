import BlockSynth.Proofs.Catalog
import BlockSynth.Proofs.Script
import BlockSynth.Render

/-! # Contracts of a run

A contract fixes an invariant of sessions and what emissions and chains are like. If every emitter
of the target meets its terms, then whatever is rendered keeps the invariant, with or without a
fault, and what it answers is as the contract says.
-/
namespace BlockSynth

namespace Synth

variable {α β : Type} {inv : Session → Prop}

/-- The step keeps an invariant and leaves all loops that it enters, and it answers as
wanted unless it fails. -/
def Keeps (inv : Session → Prop) (answer : α → Prop) (step : Synth α) : Prop :=
  ∀ session, inv session → match step session with
    | .ok result next => answer result ∧ inv next ∧ next.loops = session.loops
    | .error _ next => inv next ∧ next.loops = session.loops

theorem Keeps.pure {answer : α → Prop} {result : α} (h : answer result) :
    Keeps inv answer (Pure.pure result) :=
  fun _ hsession => ⟨h, hsession, rfl⟩

theorem Keeps.throw {answer : α → Prop} (fault : Fault) :
    Keeps inv answer (MonadExcept.throw fault) :=
  fun _ hsession => ⟨hsession, rfl⟩

theorem Keeps.bind {middle : α → Prop} {answer : β → Prop} {step : Synth α} {next : α → Synth β}
    (h : Keeps inv middle step) (hnext : ∀ result, middle result → Keeps inv answer (next result)) :
    Keeps inv answer (step >>= next) := by
  intro session hsession
  have hstep := h session hsession
  show match EStateM.bind step next session with
    | .ok result after => answer result ∧ inv after ∧ after.loops = session.loops
    | .error _ after => inv after ∧ after.loops = session.loops
  unfold EStateM.bind
  cases hrun : step session with
  | ok result after =>
    rw [hrun] at hstep
    have hlater := hnext result hstep.1 after hstep.2.1
    rw [hstep.2.2] at hlater
    exact hlater
  | error fault after =>
    rw [hrun] at hstep
    exact hstep

theorem bind_of_ok {step : Synth α} {session after : Session} {result : α}
    (h : step session = .ok result after) (next : α → Synth β) :
    (step >>= next) session = next result after := by
  show EStateM.bind step next session = _
  unfold EStateM.bind
  rw [h]

theorem bind_of_error {step : Synth α} {session stopped : Session} {fault : Fault}
    (h : step session = .error fault stopped) (next : α → Synth β) :
    (step >>= next) session = .error fault stopped := by
  show EStateM.bind step next session = _
  unfold EStateM.bind
  rw [h]

theorem ok_of_bind {step : Synth α} {next : α → Synth β} {session last : Session}
    {answer : β} (h : (step >>= next) session = .ok answer last) :
    ∃ middle between,
      step session = .ok middle between ∧ next middle between = .ok answer last := by
  cases hrun : step session with
  | ok middle between =>
    rw [bind_of_ok hrun] at h
    exact ⟨middle, between, rfl, h⟩
  | error fault stopped =>
    rw [bind_of_error hrun] at h
    simp at h

theorem inLoop_of_ok {id : String} {body : Synth α} {session after : Session} {result : α}
    (h : body { session with loops := id :: session.loops } = .ok result after) :
    inLoop id body session = .ok result { after with loops := after.loops.tail } := by
  unfold inLoop
  rw [h]

theorem Keeps.mono {answer answer' : α → Prop} {step : Synth α} (h : Keeps inv answer step)
    (himp : ∀ result, answer result → answer' result) : Keeps inv answer' step := by
  intro session hsession
  have hstep := h session hsession
  cases hrun : step session with
  | ok result after =>
    rw [hrun] at hstep
    exact ⟨himp result hstep.1, hstep.2⟩
  | error fault after =>
    rw [hrun] at hstep
    exact hstep

theorem Keeps.and {inv' : Session → Prop} {answer answer' : α → Prop}
    {step : Synth α} (h : Keeps inv answer step) (h' : Keeps inv' answer' step) :
    Keeps (fun session => inv session ∧ inv' session)
      (fun result => answer result ∧ answer' result) step := by
  intro session hsession
  have hfirst := h session hsession.1
  have hsecond := h' session hsession.2
  cases hrun : step session with
  | ok result after =>
    rw [hrun] at hfirst hsecond
    exact ⟨⟨hfirst.1, hsecond.1⟩, ⟨hfirst.2.1, hsecond.2.1⟩, hfirst.2.2⟩
  | error fault after =>
    rw [hrun] at hfirst hsecond
    exact ⟨⟨hfirst.1, hsecond.1⟩, hfirst.2⟩

theorem Keeps.congr {inv' : Session → Prop} {answer : α → Prop} {step : Synth α}
    (h : Keeps inv answer step) (hsame : ∀ session, inv session ↔ inv' session) :
    Keeps inv' answer step := by
  obtain rfl : inv = inv' := funext fun session => propext (hsame session)
  exact h

theorem Keeps.of_ok {answer : α → Prop} {step : Synth α} (h : Keeps inv answer step)
    {session after : Session} {result : α} (hsession : inv session)
    (hrun : step session = .ok result after) : answer result ∧ inv after := by
  have hstep := h session hsession
  rw [hrun] at hstep
  exact ⟨hstep.1, hstep.2.1⟩

theorem Keeps.of_error {answer : α → Prop} {step : Synth α} (h : Keeps inv answer step)
    {session after : Session} {fault : Fault} (hsession : inv session)
    (hrun : step session = .error fault after) : inv after := by
  have hstep := h session hsession
  rw [hrun] at hstep
  exact hstep.1

theorem Keeps.ofExcept {answer : α → Prop} {result : Except Fault α}
    (h : ∀ value, result = .ok value → answer value) :
    Keeps inv answer (MonadExcept.ofExcept result) := by
  cases result with
  | error fault => exact Keeps.throw fault
  | ok value => exact Keeps.pure (h value rfl)

theorem Keeps.onLedger {answer : α → Prop} {step : Ledger → α × Ledger}
    (h : ∀ session, inv session → answer (step session.toLedger).1 ∧
      inv { session with toLedger := (step session.toLedger).2 }) :
    Keeps inv answer (onLedger step) :=
  fun session hsession => ⟨(h session hsession).1, (h session hsession).2, rfl⟩

/-! ### Inside loops -/

/-- The invariant, where the loops around the current node are known. -/
def Inside (inv : Session → Prop) (stack : List String) (session : Session) : Prop :=
  inv session ∧ session.loops = stack

theorem Keeps.inside {answer : α → Prop} {step : Synth α}
    (h : Keeps inv answer step) (stack : List String) :
    Keeps (Inside inv stack) answer step := by
  intro session hsession
  have hstep := h session hsession.1
  cases hrun : step session with
  | ok result after =>
    rw [hrun] at hstep
    exact ⟨hstep.1, ⟨hstep.2.1, hstep.2.2.trans hsession.2⟩, hstep.2.2⟩
  | error fault after =>
    rw [hrun] at hstep
    exact ⟨⟨hstep.1, hstep.2.trans hsession.2⟩, hstep.2⟩

/-- A step that may be told the loops around it needs no more than the invariant. -/
theorem Keeps.of_inside {answer : α → Prop} {step : Synth α}
    (h : ∀ stack, Keeps (Inside inv stack) answer step) :
    Keeps inv answer step := by
  intro session hsession
  have hstep := h session.loops session ⟨hsession, rfl⟩
  cases hrun : step session with
  | ok result after =>
    rw [hrun] at hstep
    exact ⟨hstep.1, hstep.2.1.1, hstep.2.2⟩
  | error fault after =>
    rw [hrun] at hstep
    exact ⟨hstep.1.1, hstep.2⟩

theorem Keeps.inLoop {answer : α → Prop} {id : String} {body : Synth α} {stack : List String}
    (hloops : ∀ session loops, inv session → inv { session with loops })
    (h : Keeps (Inside inv (id :: stack)) answer body) :
    Keeps (Inside inv stack) answer (inLoop id body) := by
  rintro session ⟨hsession, rfl⟩
  have hbody := h { session with loops := id :: session.loops } ⟨hloops session _ hsession, rfl⟩
  unfold Synth.inLoop
  cases hrun : body { session with loops := id :: session.loops } with
  | ok result after =>
    rw [hrun] at hbody
    have htail : after.loops.tail = session.loops := by rw [hbody.2.2, List.tail_cons]
    exact ⟨hbody.1, ⟨hloops after _ hbody.2.1.1, htail⟩, htail⟩
  | error fault after =>
    rw [hrun] at hbody
    have htail : after.loops.tail = session.loops := by rw [hbody.2, List.tail_cons]
    exact ⟨⟨hloops after _ hbody.1.1, htail⟩, htail⟩

end Synth

/-! ### Offers -/

theorem Node.offer_eq (setting : Setting) (node : Node) :
    node.offer setting = Offer.ofNode setting node (slotOffers setting node.inputs)
      (slotOffers setting node.statements) (chainOffer setting node.next) := by
  cases node
  rfl

/-- The emission of a node is the run of the script that its kind has in the catalog. -/
theorem emission_of_find? {setting : Setting} {node : Node} {emitter : Emitter}
    (h : setting.target.catalog.find? node.kind = some emitter) :
    (node.offer setting).emission = setting.ask node (emitter.script setting.config node) := by
  rw [Node.offer_eq]
  unfold Offer.ofNode
  simp only [h]
  rfl

theorem emission_of_unknown {setting : Setting} {node : Node}
    (h : setting.target.catalog.find? node.kind = none) :
    (node.offer setting).emission = MonadExcept.throw (.ofKind node) := by
  rw [Node.offer_eq]
  unfold Offer.ofNode
  simp only [h]

theorem value_offer (setting : Setting) (node : Node) (place : Rank) :
    (node.offer setting).value place =
      if node.disabled then pure none
      else (node.offer setting).emission >>= fun emission =>
        MonadExcept.ofExcept (emission.asValue node place) := by
  rw [Node.offer_eq]
  rfl

/-- A slot that answers does so with what is emitted, wrapped for its place. -/
theorem Emission.exists_value_of_asValue {emission : Emission} {node : Node}
    {place : Rank} {text : String} (h : emission.asValue node place = .ok (some text)) :
    ∃ code rank, emission = .value code rank ∧ code ≠ "" ∧ text = wrap place rank code := by
  cases emission with
  | value code rank =>
    by_cases hcode : code = ""
    · simp [asValue, hcode] at h
    · have hwrap : some (wrap place rank code) = some text := by simpa [asValue, hcode] using h
      exact ⟨code, rank, rfl, hcode, (Option.some.inj hwrap).symm⟩
  | statement code => simp [asValue] at h
  | nothing => simp [asValue] at h

/-- The answer to a slot is nothing, or what is emitted, wrapped for its place. -/
theorem Synth.Keeps.asValue {inv : Session → Prop} {good : Emission → Prop}
    {answer : Option String → Prop} {emission : Synth Emission}
    {node : Node} {place : Rank} (h : Synth.Keeps inv good emission)
    (hnone : (node.disabled = true ∨ ∃ rank, good (.value "" rank)) → answer none)
    (hwrap : ∀ code rank, good (.value code rank) →
      code ≠ "" → answer (some (wrap place rank code))) :
    Synth.Keeps inv answer
      (if node.disabled then Pure.pure none
        else emission >>= fun emission => MonadExcept.ofExcept (emission.asValue node place)) := by
  split
  · rename_i hdisabled
    exact Synth.Keeps.pure (hnone (.inl hdisabled))
  · refine h.bind fun emission hgood => Synth.Keeps.ofExcept fun code hcode => ?_
    cases emission with
    | value code' rank =>
      obtain rfl := Except.ok.inj hcode
      split
      · rename_i hempty
        subst hempty
        exact hnone (.inr ⟨rank, hgood⟩)
      · rename_i hne
        exact hwrap code' rank hgood hne
    | statement code' => simp [Emission.asValue] at hcode
    | nothing => simp [Emission.asValue] at hcode

/-- The same for what is only said of code. -/
theorem Synth.Keeps.asValue_of_forall {inv : Session → Prop}
    {good : Emission → Prop} {answer : String → Prop} {emission : Synth Emission}
    {node : Node} {place : Rank} (h : Synth.Keeps inv good emission)
    (hwrap : ∀ code rank, good (.value code rank) → code ≠ "" → answer (wrap place rank code)) :
    Synth.Keeps inv (fun code => ∀ text ∈ code, answer text)
      (if node.disabled then Pure.pure none
        else emission >>= fun emission => MonadExcept.ofExcept (emission.asValue node place)) := by
  refine h.asValue (fun _ text htext => by simp at htext) fun code rank hgood hne text htext => ?_
  obtain rfl := Option.some.inj htext
  exact hwrap code rank hgood hne

/-- A chain is what its first node stands for, and the rest. -/
theorem chainOffer_some (setting : Setting) (node : Node) :
    let follow : String → Synth String :=
      fun here => do return here ++ (← chainOffer setting node.next)
    chainOffer setting (some node) =
      if node.disabled then pure "" >>= follow
      else (node.offer setting).emission >>= fun emission =>
        MonadExcept.ofExcept (emission.asStatement setting node) >>= follow := by
  show (node.offer setting).chain = _
  rw [Node.offer_eq]
  rfl

theorem lookup_slotOffers (setting : Setting) (slots : List (String × Node)) (slot : String) :
    (slotOffers setting slots).lookup slot = (slots.lookup slot).map (Node.offer setting) := by
  induction slots with
  | nil => rfl
  | cons entry rest ih =>
    obtain ⟨name, node⟩ := entry
    rw [slotOffers, List.lookup_cons, List.lookup_cons]
    cases slot == name with
    | true => rfl
    | false => exact ih

theorem atSlot_chain (setting : Setting) (slots : List (String × Node)) (slot : String) :
    Script.atSlot (slotOffers setting slots) slot "" Offer.chain =
      chainOffer setting (slots.lookup slot) := by
  unfold Script.atSlot
  rw [lookup_slotOffers]
  cases slots.lookup slot <;> rfl

/-- An enabled node that emits a value is rendered as that value. -/
theorem value_of_emission {setting : Setting} {node : Node} {session next : Session} {code : String}
    {rank : Rank} (h : (node.offer setting).emission session = .ok (.value code rank) next)
    (henabled : node.disabled = false) (hcode : code ≠ "") (place : Rank) :
    (node.offer setting).value place session = .ok (some (wrap place rank code)) next := by
  rw [value_offer, henabled]
  refine (Synth.bind_of_ok h _).trans ?_
  simp only [Emission.asValue, hcode, if_false]
  rfl

/-- An enabled node that emits a statement, and ends its chain, is rendered as that statement. -/
theorem chain_of_statement {setting : Setting} {node : Node} {session next : Session}
    {code : String} (h : (node.offer setting).emission session = .ok (.statement code) next)
    (henabled : node.disabled = false) (hlast : node.next = none) :
    ∃ text, chainOffer setting (some node) session = .ok text next := by
  rw [chainOffer_some, henabled, if_neg Bool.false_ne_true, hlast, Synth.bind_of_ok h]
  exact ⟨_, rfl⟩

theorem renderValue_of_value {setting : Setting} {node : Node}
    {session next : Session} {place : Rank} {code : Option String}
    (h : (node.offer setting).value place session = .ok code next) (fallback : String) :
    setting.renderValue (some node) place fallback session = .ok (code.getD fallback) next :=
  Synth.bind_of_ok h _

/-! ### Roots -/

theorem renderRoot_of_value {setting : Setting} {root : Node}
    {session next : Session} {code : String} {rank : Rank}
    (h : (root.offer setting).emission session = .ok (.value code rank) next)
    (henabled : root.disabled = false) :
    setting.renderRoot root session =
      .ok (if code = "" then "" else setting.comments root ++ setting.before root.id ++
      setting.target.nakedValue code ++ setting.after root.id) next := by
  unfold Setting.renderRoot
  rw [henabled, if_neg Bool.false_ne_true, Synth.bind_of_ok h]
  by_cases hcode : code = ""
  · simp only [hcode, if_true]
    rfl
  · simp only [hcode, if_false]
    rfl

theorem renderRoot_of_statement {setting : Setting} {root : Node} {session next : Session}
    {code : String} (h : (root.offer setting).emission session = .ok (.statement code) next)
    (henabled : root.disabled = false) (hlast : root.next = none) {text : String}
    (htext : Emission.asStatement setting root (.statement code) = .ok text) :
    setting.renderRoot root session = .ok text next := by
  unfold Setting.renderRoot
  rw [henabled, if_neg Bool.false_ne_true, Synth.bind_of_ok h, hlast]
  dsimp only
  rw [htext]
  show EStateM.Result.ok (text ++ "") next = _
  rw [String.append_empty]

theorem renderRoot_of_nothing {setting : Setting} {root : Node} {session next : Session}
    (h : (root.offer setting).emission session = .ok .nothing next)
    (henabled : root.disabled = false) (hlast : root.next = none) :
    setting.renderRoot root session = .ok "" next := by
  unfold Setting.renderRoot
  rw [henabled, if_neg Bool.false_ne_true, Synth.bind_of_ok h, hlast]
  rfl

theorem renderRoots_cons {setting : Setting} {root : Node} {rest : List Node}
    {session middle next : Session} {code : String} {codes : List String}
    (hroot : setting.renderRoot root session = .ok code middle)
    (hrest : setting.renderRoots rest middle = .ok codes next) :
    setting.renderRoots (root :: rest) session =
      .ok (if code = "" then codes else code :: codes) next :=
  (Synth.bind_of_ok hroot _).trans (Synth.bind_of_ok hrest _)

/-- A run that renders its roots ends in a program. -/
theorem generate_of_roots {setting : Setting}
    {workspace : Workspace} {codes : List String} {session : Session}
    (h : setting.renderRoots workspace.roots (setting.openProgram workspace setting.session) =
      .ok codes session) :
    setting.generate workspace =
      .ok (Text.tidy (setting.closeProgram (Text.join "\n" codes) session).1) := by
  unfold Setting.generate
  rw [h]

theorem exists_roots_of_generate {setting : Setting} {workspace : Workspace}
    {program : String} (h : setting.generate workspace = .ok program) :
    ∃ codes session,
      setting.renderRoots workspace.roots (setting.openProgram workspace setting.session) =
        .ok codes session ∧
      program = Text.tidy (setting.closeProgram (Text.join "\n" codes) session).1 := by
  unfold Setting.generate at h
  split at h
  · rename_i codes session hrun
    exact ⟨codes, session, hrun, (Except.ok.inj h).symm⟩
  · simp at h

/-! ### Runs of scripts -/

/-- An invariant that every step keeps which the terms allow, the words it gives being
as they say. -/
structure Terms.Kept (terms : Terms) (unit : String) (inv : Session → Prop) : Prop where
  resolve : ∀ session space name, inv session →
    terms.word (session.resolve space name).1 ∧
      inv { session with toLedger := (session.resolve space name).2 }
  fresh : ∀ session name, inv session →
    terms.fresh (session.fresh name).1 ∧ inv { session with toLedger := (session.fresh name).2 }
  provide : ∀ session key template, terms.helper template → inv session →
    terms.word (session.provide unit key template).1 ∧
      inv { session with toLedger := (session.provide unit key template).2 }
  require : ∀ session tag text, terms.require text → inv session →
    inv { session with toLedger := session.require tag text }
  define : ∀ session name text, terms.define text → inv session →
    inv { session with toLedger := session.define name text }

theorem Terms.Kept.inside {terms : Terms} {unit : String} {inv : Session → Prop}
    (h : terms.Kept unit inv) (stack : List String) : terms.Kept unit (Synth.Inside inv stack) where
  resolve session space name hs :=
    ⟨(h.resolve session space name hs.1).1, (h.resolve session space name hs.1).2, hs.2⟩
  fresh session name hs := ⟨(h.fresh session name hs.1).1, (h.fresh session name hs.1).2, hs.2⟩
  provide session key template ht hs :=
    ⟨(h.provide session key template ht hs.1).1, (h.provide session key template ht hs.1).2, hs.2⟩
  require session tag text ht hs := ⟨h.require session tag text ht hs.1, hs.2⟩
  define session name text ht hs := ⟨h.define session name text ht hs.1, hs.2⟩

/-- What a script records has nothing to do with its slots. -/
theorem Terms.Kept.with_slots {terms : Terms} {unit : String} {inv : Session → Prop}
    (h : terms.Kept unit inv) (lines body : String → String → Prop) (loop : Option String → Prop) :
    Terms.Kept { terms with lines, body, loop } unit inv :=
  ⟨h.resolve, h.fresh, h.provide, h.require, h.define⟩

/-- A script that meets its terms is run as they say, if its slots are as they say. -/
theorem Terms.Kept.run {terms : Terms} {setting : Setting} {inv : Session → Prop}
    (h : terms.Kept setting.config.indentUnit inv) {α : Type}
    {goal : α → Prop} {id : String} {inputs branches : List (String × Offer)}
    (hvalue : ∀ slot rank, Synth.Keeps inv (fun code => ∀ text ∈ code, terms.value rank text)
      (Script.atSlot inputs slot none fun offer => offer.value rank))
    (hlines : ∀ slot, Synth.Keeps inv
      (fun code => terms.lines slot (Text.prefixLines setting.config.indentUnit code))
      (Script.atSlot branches slot "" Offer.chain))
    (hbody : ∀ slot, Synth.Keeps inv (fun code =>
      terms.body slot (setting.trapLoop (Text.prefixLines setting.config.indentUnit code) id))
      (Synth.inLoop id (Script.atSlot branches slot "" Offer.chain)))
    (hloop : ∀ session, inv session → terms.loop session.loops.head?)
    {script : Script α} (hscript : script.Meets terms goal) :
    Synth.Keeps inv goal (script.run setting id inputs branches) := by
  induction script with
  | done answer => exact Synth.Keeps.pure hscript
  | fail fault => exact Synth.Keeps.throw fault
  | value slot rank next ih =>
    exact (hvalue slot rank).bind fun code hcode => ih code (hscript code hcode)
  | statements slot next ih => exact (hlines slot).bind fun code hcode => ih _ (hscript _ hcode)
  | loopBody slot next ih => exact (hbody slot).bind fun code hcode => ih _ (hscript _ hcode)
  | enclosingLoop next ih =>
    exact fun session hsession => ih _ (hscript _ (hloop session hsession)) session hsession
  | resolve space name next ih =>
    refine Synth.Keeps.bind (Synth.Keeps.onLedger fun session hsession => ?_) fun word hword =>
      ih word (hscript word hword)
    exact h.resolve session space name hsession
  | fresh name next ih =>
    refine Synth.Keeps.bind (Synth.Keeps.onLedger fun session hsession => ?_) fun word hword =>
      ih word (hscript word hword)
    exact h.fresh session name hsession
  | helper key template next ih =>
    refine Synth.Keeps.bind (Synth.Keeps.onLedger fun session hsession => ?_) fun word hword =>
      ih word (hscript.2 word hword)
    exact h.provide session key template hscript.1 hsession
  | require tag text next ih =>
    have hstep : Synth.Keeps inv (fun _ => True)
        (Synth.onLedger fun ledger => ((), ledger.require tag text)) :=
      Synth.Keeps.onLedger fun session hsession =>
        ⟨trivial, h.require session tag text hscript.1 hsession⟩
    exact hstep.bind fun _ _ => ih hscript.2
  | define name text next ih =>
    have hstep : Synth.Keeps inv (fun _ => True)
        (Synth.onLedger fun ledger => ((), ledger.define name text)) :=
      Synth.Keeps.onLedger fun session hsession =>
        ⟨trivial, h.define session name text hscript.1 hsession⟩
    exact hstep.bind fun _ _ => ih hscript.2

/-! ### Contracts -/

structure Contract extends Terms where
  session : Session → Prop
  emission : Emission → Prop
  chain : String → Prop

/-- What the engine has to do for a contract. -/
structure Contract.Observed (contract : Contract) (setting : Setting) : Prop extends
    contract.toTerms.Kept setting.config.indentUnit contract.session where
  loops : ∀ session loops, contract.session session → contract.session { session with loops }
  wrap : ∀ code rank place, contract.emission (.value code rank) → code ≠ "" →
    contract.value place (wrap place rank code)
  statement : ∀ emission node text, contract.emission emission →
    emission.asStatement setting node = .ok text → contract.chain text
  naked : ∀ node code rank, contract.emission (.value code rank) → code ≠ "" →
    contract.chain (setting.comments node ++ setting.before node.id ++
      setting.target.nakedValue code ++ setting.after node.id)
  chain_nil : contract.chain ""
  chain_append : ∀ code more,
    contract.chain code → contract.chain more → contract.chain (code ++ more)
  lines : ∀ slot code, contract.chain code →
    contract.lines slot (Text.prefixLines setting.config.indentUnit code)
  loopBody : ∀ slot code id, contract.chain code →
    contract.body slot (setting.trapLoop (Text.prefixLines setting.config.indentUnit code) id)
  loop : ∀ id, contract.loop id

/-- What the engine and the emitters of a target have to do for a contract. -/
structure Contract.Upheld (contract : Contract) (setting : Setting) : Prop extends
    contract.Observed setting where
  emitter : ∀ kind emitter, setting.target.catalog.find? kind = some emitter → ∀ node,
    (emitter.script setting.config node).Meets contract.toTerms contract.emission

structure Contract.Holds (contract : Contract) (offer : Offer) : Prop where
  emission : Synth.Keeps contract.session contract.emission offer.emission
  value :
    ∀ place, Synth.Keeps contract.session (fun code => ∀ text ∈ code, contract.value place text)
    (offer.value place)
  chain : Synth.Keeps contract.session contract.chain offer.chain

def Contract.AllHold (contract : Contract) (slots : List (String × Offer)) : Prop :=
  ∀ entry ∈ slots, contract.Holds entry.2

namespace Contract.Upheld

variable {contract : Contract} {setting : Setting}

theorem atSlot {α : Type} {answer : α → Prop} {slots : List (String × Offer)} {slot : String}
    {empty : α} {ask : Offer → Synth α} (hslots : contract.AllHold slots) (hempty : answer empty)
    (hask : ∀ offer, contract.Holds offer → Synth.Keeps contract.session answer (ask offer)) :
    Synth.Keeps contract.session answer (Script.atSlot slots slot empty ask) := by
  unfold Script.atSlot
  cases hlookup : slots.lookup slot with
  | none => exact Synth.Keeps.pure hempty
  | some offer => exact hask offer (hslots (slot, offer) (Keyed.mem_of_lookup hlookup))

/-- The value of a slot is as the contract says. -/
theorem value_slot {inputs : List (String × Offer)}
    (hinputs : contract.AllHold inputs) (slot : String) (rank : Rank) :
    Synth.Keeps contract.session (fun code => ∀ text ∈ code, contract.value rank text)
      (Script.atSlot inputs slot none fun offer => offer.value rank) :=
  atSlot hinputs (fun text htext => by simp at htext) fun _ hoffer => hoffer.value rank

theorem run (h : contract.Upheld setting) {α : Type} {goal : α → Prop} {id : String}
    {inputs branches : List (String × Offer)} (hinputs : contract.AllHold inputs)
    (hbranches : contract.AllHold branches) {script : Script α}
    (hscript : script.Meets contract.toTerms goal) :
    Synth.Keeps contract.session goal (script.run setting id inputs branches) := by
  have hchain : ∀ slot, Synth.Keeps contract.session contract.chain
      (Script.atSlot branches slot "" Offer.chain) :=
    fun slot => atSlot hbranches h.chain_nil fun offer hoffer => hoffer.chain
  refine h.toKept.run (value_slot hinputs) (fun slot => (hchain slot).mono (h.lines slot))
    (fun slot => ?_) (fun session _ => h.loop _) hscript
  refine Synth.Keeps.of_inside fun stack => Synth.Keeps.inLoop h.loops ?_
  exact ((hchain slot).mono fun code => h.loopBody slot code id).inside (id :: stack)

theorem ofNode (h : contract.Upheld setting) (node : Node)
    {inputs branches : List (String × Offer)} {rest : Synth String}
    (hinputs : contract.AllHold inputs) (hbranches : contract.AllHold branches)
    (hrest : Synth.Keeps contract.session contract.chain rest) :
    contract.Holds (Offer.ofNode setting node inputs branches rest) := by
  have hemission : Synth.Keeps contract.session contract.emission
      (Offer.ofNode setting node inputs branches rest).emission := by
    unfold Offer.ofNode
    cases hfind : setting.target.catalog.find? node.kind with
    | none => exact Synth.Keeps.throw _
    | some emitter => exact h.run hinputs hbranches (h.emitter _ emitter hfind node)
  refine ⟨hemission, fun place => ?_, ?_⟩
  · exact hemission.asValue_of_forall fun code rank => h.wrap code rank place
  · have hfollow : ∀ here, contract.chain here →
        Synth.Keeps contract.session contract.chain (do return here ++ (← rest)) := by
      intro here hhere
      refine hrest.bind fun more hmore => ?_
      exact Synth.Keeps.pure (h.chain_append here more hhere hmore)
    show Synth.Keeps _ _ (if node.disabled then _ else _)
    split
    · exact (Synth.Keeps.pure h.chain_nil).bind hfollow
    · refine hemission.bind fun emission hholds => ?_
      exact (Synth.Keeps.ofExcept fun text htext =>
        h.statement emission node text hholds htext).bind hfollow

mutual

theorem offer (h : contract.Upheld setting) (node : Node) :
    contract.Holds (node.offer setting) := by
  obtain ⟨id, kind, fields, inputs, statements, next, comment, disabled, mutation⟩ := node
  exact h.ofNode _ (slotOffers_hold h inputs) (slotOffers_hold h statements)
    (chainOffer_keeps h next)
termination_by structural node

theorem slotOffers_hold (h : contract.Upheld setting) (slots : List (String × Node)) :
    contract.AllHold (slotOffers setting slots) := by
  cases slots with
  | nil => exact List.forall_mem_nil _
  | cons entry rest =>
    obtain ⟨slot, node⟩ := entry
    exact List.forall_mem_cons.mpr ⟨offer h node, slotOffers_hold h rest⟩
termination_by structural slots

theorem chainOffer_keeps (h : contract.Upheld setting) (next : Option Node) :
    Synth.Keeps contract.session contract.chain (chainOffer setting next) := by
  cases next with
  | none => exact Synth.Keeps.pure h.chain_nil
  | some node => exact (offer h node).chain
termination_by structural next

end

/-! ### Rendering -/

theorem ask (h : contract.Upheld setting) (node : Node) {α : Type} {goal : α → Prop}
    {script : Script α} (hscript : script.Meets contract.toTerms goal) :
    Synth.Keeps contract.session goal (setting.ask node script) :=
  h.run (h.slotOffers_hold node.inputs) (h.slotOffers_hold node.statements) hscript

theorem renderValue (h : contract.Upheld setting)
    (node : Option Node) (place : Rank) (fallback : String) :
    Synth.Keeps contract.session (fun text => text = fallback ∨ contract.value place text)
      (setting.renderValue node place fallback) := by
  cases node with
  | none => exact Synth.Keeps.pure (.inl rfl)
  | some node =>
    refine ((h.offer node).value place).bind fun code hcode => Synth.Keeps.pure ?_
    cases code with
    | none => exact .inl rfl
    | some text => exact .inr (hcode text rfl)

theorem renderRoot (h : contract.Upheld setting) (root : Node) :
    Synth.Keeps contract.session contract.chain (setting.renderRoot root) := by
  unfold Setting.renderRoot
  split
  · exact h.chainOffer_keeps root.next
  · refine (h.offer root).emission.bind fun emission hholds => ?_
    have hstatement : Synth.Keeps contract.session contract.chain (do
        let here ← MonadExcept.ofExcept (emission.asStatement setting root)
        return here ++ (← setting.renderChain root.next)) := by
      have hhere := @Synth.Keeps.ofExcept _ contract.session contract.chain
        (emission.asStatement setting root) fun text htext =>
          h.statement emission root text hholds htext
      refine hhere.bind fun here hchain => (h.chainOffer_keeps root.next).bind fun more hmore => ?_
      exact Synth.Keeps.pure (h.chain_append here more hchain hmore)
    cases emission with
    | value code rank =>
      show Synth.Keeps _ _ (if code = "" then _ else _)
      split
      · exact Synth.Keeps.pure h.chain_nil
      · rename_i hne
        exact Synth.Keeps.pure (h.naked root code rank hholds hne)
    | statement code => exact hstatement
    | nothing => exact hstatement

theorem renderRoots (h : contract.Upheld setting) (roots : List Node) :
    Synth.Keeps contract.session (fun codes => ∀ code ∈ codes, contract.chain code)
      (setting.renderRoots roots) := by
  induction roots with
  | nil => exact Synth.Keeps.pure (List.forall_mem_nil _)
  | cons root rest ih =>
    refine (h.renderRoot root).bind fun code hcode => ih.bind fun codes hcodes =>
      Synth.Keeps.pure ?_
    split
    · exact hcodes
    · exact List.forall_mem_cons.mpr ⟨hcode, hcodes⟩

end Contract.Upheld

/-! ### Reachable sessions -/

/-- What can be asked of a session. -/
inductive Request (setting : Setting) : {α : Type} → Synth α → Prop
  | ask {α : Type} (node : Node) (script : Script α) : Request setting (setting.ask node script)
  | renderValue (node : Option Node) (place : Rank) (fallback : String) :
    Request setting (setting.renderValue node place fallback)
  | renderChain (first : Option Node) : Request setting (setting.renderChain first)
  | renderRoot (root : Node) : Request setting (setting.renderRoot root)

/-- The sessions of a run, also in the middle of a loop, behind a fault and with
edited definitions. -/
inductive Reachable (setting : Setting) : Session → Prop
  | start : Reachable setting setting.session
  | opened {session : Session} (workspace : Workspace) :
    Reachable setting session → Reachable setting (setting.openProgram workspace session)
  | entered {session : Session} (loops : List String) :
    Reachable setting session → Reachable setting { session with loops }
  | redefined {session : Session} (definitions : Definitions) :
    Reachable setting session → Reachable setting { session with definitions }
  | answered {α : Type} {step : Synth α} {session next : Session} {answer : α} :
    Request setting step → Reachable setting session → step session = .ok answer next →
      Reachable setting next
  | failed {α : Type} {step : Synth α} {session next : Session} {fault : Fault} :
    Request setting step → Reachable setting session → step session = .error fault next →
      Reachable setting next

/-- An invariant of all reachable sessions, from a contract that lets every script
record what it likes. -/
theorem Reachable.session {contract : Contract} {setting : Setting} (h : contract.Upheld setting)
    (hhelper : ∀ template, contract.helper template) (hrequire : ∀ text, contract.require text)
    (hdefine : ∀ text, contract.define text) (hstart : contract.session setting.session)
    (hopened : ∀ session workspace, contract.session session →
      contract.session (setting.openProgram workspace session))
    (hredefined : ∀ session definitions, contract.session session →
      contract.session { session with definitions })
    {session : Session} (hreach : Reachable setting session) : contract.session session := by
  have hkeeps : ∀ {α : Type} {step : Synth α}, Request setting step →
      Synth.Keeps contract.session (fun _ => True) step := by
    intro α step hrequest
    cases hrequest with
    | ask node script =>
      exact h.ask node (script.meets_of_forall hhelper hrequire hdefine fun _ => trivial)
    | renderValue node place fallback =>
      exact (h.renderValue node place fallback).mono fun _ _ => trivial
    | renderChain first => exact (h.chainOffer_keeps first).mono fun _ _ => trivial
    | renderRoot root => exact (h.renderRoot root).mono fun _ _ => trivial
  induction hreach with
  | start => exact hstart
  | opened workspace _ ih => exact hopened _ workspace ih
  | entered loops _ ih => exact h.loops _ loops ih
  | redefined definitions _ ih => exact hredefined _ definitions ih
  | answered hrequest _ hrun ih => exact ((hkeeps hrequest).of_ok ih hrun).2
  | failed hrequest _ hrun ih => exact (hkeeps hrequest).of_error ih hrun

end BlockSynth
