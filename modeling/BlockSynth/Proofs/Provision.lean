import BlockSynth.Proofs.Program.Definitions
import BlockSynth.Proofs.Program.Ledger
import BlockSynth.Proofs.Render

/-! # What a script has seen to

A script may have to require an import before it asks for a helper, and to be given
the identifiers of a procedure and of its parameters before it defines it. Its notes
are what it has seen to so far. Rendering a slot in between cannot undo any of it, so
what a script may do in the light of its notes it may do when it runs.
-/
namespace BlockSynth

structure Notes where
  /-- The imports that have been required. -/
  tags : List String := []
  /-- The identifiers that names have been resolved to. -/
  words : List (Namespace × String) := []

/-- What may be asked for in the light of the notes. -/
structure Rules where
  helper : Notes → String → String → Prop
  /-- The tags of imports. -/
  require : String → Prop
  define : Notes → String → String → Prop

namespace Script

variable {α β : Type} {rules : Rules} {goal : Notes → α → Prop} {notes : Notes}

/-- A script that keeps to the rules, whatever it is answered, and ends with notes and
an answer as wanted. -/
def Heeds (rules : Rules) : Script α → (Notes → α → Prop) → Notes → Prop
  | done answer, goal, notes => goal notes answer
  | fail _, _, _ => True
  | value _ _ next, goal, notes => ∀ code, (next code).Heeds rules goal notes
  | statements _ next, goal, notes => ∀ code, (next code).Heeds rules goal notes
  | loopBody _ next, goal, notes => ∀ code, (next code).Heeds rules goal notes
  | enclosingLoop next, goal, notes => ∀ id, (next id).Heeds rules goal notes
  | resolve space _ next, goal, notes =>
    ∀ word, (next word).Heeds rules goal { notes with words := (space, word) :: notes.words }
  | fresh _ next, goal, notes => ∀ word, (next word).Heeds rules goal notes
  | helper key template next, goal, notes =>
    rules.helper notes key template ∧ ∀ word, (next word).Heeds rules goal notes
  | require tag _ next, goal, notes =>
    rules.require tag ∧ next.Heeds rules goal { notes with tags := tag :: notes.tags }
  | define name text next, goal, notes => rules.define notes name text ∧ next.Heeds rules goal notes

@[simp] theorem heeds_bind (script : Script α) (next : α → Script β) (goal : Notes → β → Prop)
    (notes : Notes) : (script >>= next).Heeds rules goal notes ↔
      script.Heeds rules (fun after answer => (next answer).Heeds rules goal after) notes := by
  show (script.bind next).Heeds rules goal notes ↔ _
  induction script generalizing notes with
  | done answer => exact Iff.rfl
  | fail fault => exact Iff.rfl
  | value slot rank rest ih => exact forall_congr' fun code => ih code notes
  | statements slot rest ih => exact forall_congr' fun code => ih code notes
  | loopBody slot rest ih => exact forall_congr' fun code => ih code notes
  | enclosingLoop rest ih => exact forall_congr' fun id => ih id notes
  | resolve space name rest ih => exact forall_congr' fun word => ih word _
  | fresh name rest ih => exact forall_congr' fun word => ih word notes
  | helper key template rest ih => exact and_congr_right' (forall_congr' fun word => ih word notes)
  | require tag text rest ih => exact and_congr_right' (ih _)
  | define name text rest ih => exact and_congr_right' (ih notes)

@[simp] theorem heeds_pure (answer : α) :
    (Pure.pure answer : Script α).Heeds rules goal notes ↔ goal notes answer := Iff.rfl

@[simp] theorem heeds_done (answer : α) :
    (done answer).Heeds rules goal notes ↔ goal notes answer := Iff.rfl

@[simp] theorem heeds_fail (fault : Fault) :
    (fail fault : Script α).Heeds rules goal notes := trivial

@[simp] theorem heeds_map (script : Script α) (f : α → β)
    (goal : Notes → β → Prop) (notes : Notes) :
    (f <$> script).Heeds rules goal notes ↔
    script.Heeds rules (fun after answer => goal after (f answer)) notes :=
  heeds_bind script (fun answer => done (f answer)) goal notes

@[simp] theorem heeds_ite (c : Prop) [Decidable c] (script other : Script α) :
    (if c then script else other).Heeds rules goal notes ↔
      (c → script.Heeds rules goal notes) ∧ (¬c → other.Heeds rules goal notes) := by
  split <;> simp_all

/-! ### Requests -/

@[simp] theorem heeds_askValue (slot : String) (rank : Rank) {goal : Notes → Option String → Prop} :
    (askValue slot rank).Heeds rules goal notes ↔ ∀ code, goal notes code := Iff.rfl

@[simp] theorem heeds_valueOr (slot : String) (rank : Rank) (fallback : String)
    {goal : Notes → String → Prop} :
    (valueOr slot rank fallback).Heeds rules goal notes ↔ ∀ code, goal notes code := by
  constructor
  · intro h code
    exact h (some code)
  · intro h code
    exact h (code.getD fallback)

@[simp] theorem heeds_askStatements (slot : String) {goal : Notes → String → Prop} :
    (askStatements slot).Heeds rules goal notes ↔ ∀ code, goal notes code := Iff.rfl

@[simp] theorem heeds_askLoopBody (slot : String) {goal : Notes → String → Prop} :
    (askLoopBody slot).Heeds rules goal notes ↔ ∀ code, goal notes code := Iff.rfl

@[simp] theorem heeds_askLoop {goal : Notes → Option String → Prop} :
    askLoop.Heeds rules goal notes ↔ ∀ id, goal notes id := Iff.rfl

@[simp] theorem heeds_variableName (name : String) {goal : Notes → String → Prop} :
    (variableName name).Heeds rules goal notes ↔
      ∀ word, goal { notes with words := (.variable, word) :: notes.words } word := Iff.rfl

@[simp] theorem heeds_procedureName (name : String) {goal : Notes → String → Prop} :
    (procedureName name).Heeds rules goal notes ↔
      ∀ word, goal { notes with words := (.procedure, word) :: notes.words } word := Iff.rfl

@[simp] theorem heeds_freshName (name : String) {goal : Notes → String → Prop} :
    (freshName name).Heeds rules goal notes ↔ ∀ word, goal notes word := Iff.rfl

@[simp] theorem heeds_askHelper (key template : String) {goal : Notes → String → Prop} :
    (askHelper key template).Heeds rules goal notes ↔
      rules.helper notes key template ∧ ∀ word, goal notes word := Iff.rfl

@[simp] theorem heeds_requireText (tag text : String) {goal : Notes → Unit → Prop} :
    (requireText tag text).Heeds rules goal notes ↔
      rules.require tag ∧ goal { notes with tags := tag :: notes.tags } () := Iff.rfl

@[simp] theorem heeds_defineText (name text : String) {goal : Notes → Unit → Prop} :
    (defineText name text).Heeds rules goal notes ↔
    rules.define notes name text ∧ goal notes () := Iff.rfl

@[simp] theorem heeds_valuesOr (rank : Rank) (fallback : String) {goal : Notes → List String → Prop}
    (h : ∀ codes, goal notes codes) (slots : List String) :
    (valuesOr rank fallback slots).Heeds rules goal notes := by
  induction slots generalizing goal with
  | nil => exact h []
  | cons slot rest ih =>
    simp only [valuesOr, heeds_bind, heeds_valueOr]
    exact fun code => ih fun codes => h (code :: codes)

@[simp] theorem heeds_variableNames {goal : Notes → List String → Prop} (h : ∀ words,
      goal { notes with words := (words.map (Namespace.variable, ·)).reverse ++ notes.words } words)
    (names : List String) : (variableNames names).Heeds rules goal notes := by
  induction names generalizing goal notes with
  | nil => exact h []
  | cons name rest ih =>
    simp only [variableNames, heeds_bind, heeds_variableName]
    exact fun word => ih fun words => by simpa using h (word :: words)

@[simp] theorem heeds_index (config : Config) (slot : String) (delta : Int) (negate : Bool)
    (place : Rank) {goal : Notes → String → Prop} (h : ∀ code, goal notes code) :
    (index config slot delta negate place).Heeds rules goal notes := by
  simp only [index, heeds_bind, heeds_valueOr, heeds_pure]
  exact fun code => h _

@[simp] theorem heeds_cache (declare : String → String → String) (code name : String)
    {goal : Notes → Cached → Prop} (h : ∀ cached, goal notes cached) :
    (cache declare code name).Heeds rules goal notes := by
  unfold cache
  split
  · exact h _
  · exact fun word => h _

end Script

/-! ### Notes that hold -/

/-- What a ledger has recorded stays recorded. -/
structure Ledger.Grows (ledger later : Ledger) : Prop where
  keys : ledger.definitions.keys ⊆ later.definitions.keys
  resolved : ledger.names.resolved ⊆ later.names.resolved

namespace Ledger

theorem Grows.refl (ledger : Ledger) : ledger.Grows ledger :=
  ⟨List.Subset.refl _, List.Subset.refl _⟩

theorem Grows.trans {ledger later last : Ledger}
    (h : ledger.Grows later) (hlater : later.Grows last) :
    ledger.Grows last :=
  ⟨List.Subset.trans h.keys hlater.keys, List.Subset.trans h.resolved hlater.resolved⟩

variable (ledger : Ledger)

theorem grows_insert (key : DefinitionKey) (text : String) :
    ledger.Grows { ledger with definitions := ledger.definitions.insert key text } :=
  ⟨fun _ hkey => Definitions.mem_keys_insert.mpr (.inl hkey), fun _ hentry => hentry⟩

theorem grows_resolve (space : Namespace) (name : String) :
    ledger.Grows (ledger.resolve space name).2 := by
  refine ⟨fun _ hkey => hkey, ?_⟩
  show ledger.names.resolved ⊆ (ledger.names.resolve space name).2.resolved
  cases hlookup : ledger.names.lookup space name with
  | some word => simp [Registry.resolve_of_lookup hlookup]
  | none => simp [Registry.resolve_of_not_lookup hlookup]

theorem grows_fresh (name : String) : ledger.Grows (ledger.fresh name).2 :=
  ⟨fun _ hkey => hkey, fun _ hentry => hentry⟩

theorem grows_provide (unit key template : String) :
    ledger.Grows (ledger.provide unit key template).2 := by
  cases hlookup : ledger.helpers.lookup key template with
  | some name =>
    rw [provide_of_lookup hlookup]
    exact ⟨fun _ hkey => hkey, fun _ hentry => hentry⟩
  | none =>
    rw [provide_of_not_lookup hlookup]
    exact ⟨(grows_insert ledger _ _).keys, fun _ hentry => hentry⟩

theorem grows_require (tag text : String) : ledger.Grows (ledger.require tag text) := by
  rcases ledger.require_cases tag text with heq | heq
  · rw [heq]
    exact .refl ledger
  · rw [heq]
    exact grows_insert ledger _ _

theorem grows_define (name text : String) : ledger.Grows (ledger.define name text) :=
  grows_insert ledger _ _

theorem importing_mem_require (tag text : String) :
    .importing tag ∈ (ledger.require tag text).definitions.keys := by
  rcases ledger.definitions.insertIfAbsent_cases (.importing tag) text with ⟨hmem, heq⟩ | ⟨-, heq⟩
  · rw [require, heq]
    exact hmem
  · rw [require, heq]
    exact Definitions.mem_keys_insert.mpr (.inr rfl)

theorem mem_resolved_resolve (space : Namespace) (name : String) :
    ((space, name), (ledger.resolve space name).1) ∈
      (ledger.resolve space name).2.names.resolved := by
  show ((space, name), (ledger.names.resolve space name).1) ∈
    (ledger.names.resolve space name).2.resolved
  cases hlookup : ledger.names.lookup space name with
  | some word =>
    rw [Registry.resolve_of_lookup hlookup]
    exact Keyed.mem_of_lookup hlookup
  | none =>
    rw [Registry.resolve_of_not_lookup hlookup]
    exact List.mem_cons_self

end Ledger

structure Notes.Hold (notes : Notes) (ledger : Ledger) : Prop where
  tags : ∀ tag ∈ notes.tags, .importing tag ∈ ledger.definitions.keys
  words : ∀ entry ∈ notes.words, ∃ name, ((entry.1, name), entry.2) ∈ ledger.names.resolved

theorem Notes.Hold.grow {notes : Notes} {ledger later : Ledger} (h : notes.Hold ledger)
    (hgrows : ledger.Grows later) : notes.Hold later where
  tags tag htag := hgrows.keys (h.tags tag htag)
  words entry hentry := by
    obtain ⟨name, hname⟩ := h.words entry hentry
    exact ⟨name, hgrows.resolved hname⟩

theorem Notes.Hold.resolve {notes : Notes} {ledger : Ledger}
    (h : notes.Hold ledger) (space : Namespace) (name : String) :
    Notes.Hold { notes with words := (space, (ledger.resolve space name).1) :: notes.words }
      (ledger.resolve space name).2 where
  tags := (h.grow (ledger.grows_resolve space name)).tags
  words := List.forall_mem_cons.mpr ⟨⟨name, ledger.mem_resolved_resolve space name⟩,
      (h.grow (ledger.grows_resolve space name)).words⟩

theorem Notes.Hold.require {notes : Notes} {ledger : Ledger}
    (h : notes.Hold ledger) (tag text : String) :
    Notes.Hold { notes with tags := tag :: notes.tags } (ledger.require tag text) where
  tags := List.forall_mem_cons.mpr
    ⟨ledger.importing_mem_require tag text, (h.grow (ledger.grows_require tag text)).tags⟩
  words := (h.grow (ledger.grows_require tag text)).words

theorem notes_empty_hold (ledger : Ledger) : Notes.Hold {} ledger :=
  ⟨List.forall_mem_nil _, List.forall_mem_nil _⟩

/-! ### Runs -/

/-- An invariant that every step keeps which the rules allow. -/
structure Rules.Keep (rules : Rules) (unit : String) (inv : Ledger → Prop) : Prop where
  resolve : ∀ ledger space name, inv ledger → inv (ledger.resolve space name).2
  fresh : ∀ ledger name, inv ledger → inv (ledger.fresh name).2
  provide : ∀ ledger notes key template, notes.Hold ledger → rules.helper notes key template →
    inv ledger → inv (ledger.provide unit key template).2
  require : ∀ ledger tag text, rules.require tag → inv ledger → inv (ledger.require tag text)
  define : ∀ ledger notes name text, notes.Hold ledger → rules.define notes name text →
    inv ledger → inv (ledger.define name text)

/-- The session that a step leaves behind, also behind a fault. -/
def Synth.leaves {α : Type} (step : Synth α) (session : Session) : Session :=
  match step session with
  | .ok _ next => next
  | .error _ next => next

theorem Synth.leaves_of_ok {α : Type} {step : Synth α} {session next : Session} {answer : α}
    (h : step session = .ok answer next) : step.leaves session = next := by
  simp [leaves, h]

/-- What a step leads to that keeps an invariant and takes nothing back. -/
structure Ledger.Leads (inv : Ledger → Prop) (ledger later : Ledger) : Prop where
  inv : inv later
  grows : ledger.Grows later

theorem Ledger.Leads.trans {inv : Ledger → Prop} {ledger later last : Ledger}
    (h : ledger.Leads inv later) (hlater : later.Leads inv last) : ledger.Leads inv last :=
  ⟨hlater.inv, h.grows.trans hlater.grows⟩

def Synth.Steady {α : Type} (inv : Ledger → Prop) (step : Synth α) : Prop :=
  ∀ session : Session, inv session.toLedger →
    session.toLedger.Leads inv (step.leaves session).toLedger

namespace Synth.Steady

variable {α β : Type} {inv : Ledger → Prop}

theorem pure (result : α) : Steady inv (Pure.pure result) :=
  fun session hinv => ⟨hinv, .refl session.toLedger⟩

theorem throw (fault : Fault) : Steady inv (MonadExcept.throw fault : Synth α) :=
  fun session hinv => ⟨hinv, .refl session.toLedger⟩

theorem ofExcept (result : Except Fault α) : Steady inv (MonadExcept.ofExcept result) := by
  cases result with
  | error fault => exact throw fault
  | ok value => exact pure value

/-- What comes next starts from a session in which all that held before still holds. -/
theorem bind_from {step : Synth α} {next : α → Synth β} (h : Steady inv step) {session : Session}
    (hinv : inv session.toLedger)
    (hnext : ∀ (result : α) (later : Session), session.toLedger.Leads inv later.toLedger →
      later.toLedger.Leads inv ((next result).leaves later).toLedger) :
    session.toLedger.Leads inv ((step >>= next).leaves session).toLedger := by
  have hstep := h session hinv
  have hbind : (step >>= next) session = EStateM.bind step next session := rfl
  unfold leaves at hstep ⊢
  rw [hbind, EStateM.bind]
  cases hrun : step session with
  | ok result later =>
    rw [hrun] at hstep
    exact hstep.trans (hnext result later hstep)
  | error fault later =>
    rw [hrun] at hstep
    exact hstep

theorem bind {step : Synth α} {next : α → Synth β} (h : Steady inv step)
    (hnext : ∀ result, Steady inv (next result)) : Steady inv (step >>= next) :=
  fun _ hinv => h.bind_from hinv fun result later hlater => hnext result later hlater.inv

theorem inLoop {body : Synth α} (id : String) (h : Steady inv body) :
    Steady inv (inLoop id body) := by
  intro session hinv
  have hbody := h { session with loops := id :: session.loops } hinv
  unfold leaves at hbody ⊢
  unfold Synth.inLoop
  cases hrun : body { session with loops := id :: session.loops } with
  | ok result after =>
    rw [hrun] at hbody
    exact hbody
  | error fault after =>
    rw [hrun] at hbody
    exact hbody

end Synth.Steady

structure Offer.Steady (inv : Ledger → Prop) (offer : Offer) : Prop where
  emission : Synth.Steady inv offer.emission
  value : ∀ place, Synth.Steady inv (offer.value place)
  chain : Synth.Steady inv offer.chain

/-- Every emitter of the target keeps to the rules. -/
def Setting.Heeds (setting : Setting) (rules : Rules) : Prop :=
  setting.target.catalog.All fun emitter => ∀ node,
    (emitter.script setting.config node).Heeds rules (fun _ _ => True) {}

namespace Rules.Keep

variable {rules : Rules} {inv : Ledger → Prop} {setting : Setting}

theorem atSlot {α : Type} {slots : List (String × Offer)} (slot : String) (empty : α)
    {ask : Offer → Synth α} (hslots : ∀ entry ∈ slots, entry.2.Steady inv)
    (hask : ∀ offer : Offer, offer.Steady inv → Synth.Steady inv (ask offer)) :
    Synth.Steady inv (Script.atSlot slots slot empty ask) := by
  unfold Script.atSlot
  cases hlookup : slots.lookup slot with
  | none => exact Synth.Steady.pure empty
  | some offer => exact hask offer (hslots (slot, offer) (Keyed.mem_of_lookup hlookup))

/-- What the rules allow a script in the light of its notes, it may do in a run in
which they hold. -/
theorem run (h : rules.Keep setting.config.indentUnit inv) {α : Type}
    {goal : Notes → α → Prop} {id : String} {inputs branches : List (String × Offer)}
    (hinputs : ∀ entry ∈ inputs, entry.2.Steady inv)
    (hbranches : ∀ entry ∈ branches, entry.2.Steady inv) {script : Script α}
    {notes : Notes} (hscript : script.Heeds rules goal notes) (session : Session)
    (hinv : inv session.toLedger) (hhold : notes.Hold session.toLedger) :
    session.toLedger.Leads inv
      ((script.run setting id inputs branches).leaves session).toLedger := by
  have hchain : ∀ slot, Synth.Steady inv (Script.atSlot branches slot "" Offer.chain) :=
    fun slot => atSlot slot "" hbranches fun offer hoffer => hoffer.chain
  induction script generalizing notes session with
  | done answer => exact Synth.Steady.pure answer session hinv
  | fail fault => exact Synth.Steady.throw fault session hinv
  | value slot rank next ih =>
    have hvalue : Synth.Steady inv (Script.atSlot inputs slot none fun offer => offer.value rank) :=
      atSlot slot none hinputs fun offer hoffer => hoffer.value rank
    exact hvalue.bind_from hinv fun code later hlater =>
      ih code (hscript code) later hlater.inv (hhold.grow hlater.grows)
  | statements slot next ih =>
    exact (hchain slot).bind_from hinv fun code later hlater =>
      ih _ (hscript _) later hlater.inv (hhold.grow hlater.grows)
  | loopBody slot next ih =>
    exact ((hchain slot).inLoop id).bind_from hinv fun code later hlater =>
      ih _ (hscript _) later hlater.inv (hhold.grow hlater.grows)
  | enclosingLoop next ih => exact ih _ (hscript _) session hinv hhold
  | resolve space name next ih =>
    have hstep : session.toLedger.Leads inv (session.toLedger.resolve space name).2 :=
      ⟨h.resolve session.toLedger space name hinv, session.toLedger.grows_resolve space name⟩
    exact hstep.trans
      (ih _ (hscript _) { session with toLedger := _ } hstep.inv (hhold.resolve space name))
  | fresh name next ih =>
    have hstep : session.toLedger.Leads inv (session.toLedger.fresh name).2 :=
      ⟨h.fresh session.toLedger name hinv, session.toLedger.grows_fresh name⟩
    exact hstep.trans (ih _ (hscript _) { session with toLedger := _ } hstep.inv
      (hhold.grow hstep.grows))
  | helper key template next ih =>
    have hstep : session.toLedger.Leads inv
        (session.toLedger.provide setting.config.indentUnit key template).2 :=
      ⟨h.provide session.toLedger notes key template hhold hscript.1 hinv,
        session.toLedger.grows_provide _ key template⟩
    exact hstep.trans (ih _ (hscript.2 _) { session with toLedger := _ } hstep.inv
      (hhold.grow hstep.grows))
  | require tag text next ih =>
    have hstep : session.toLedger.Leads inv (session.toLedger.require tag text) :=
      ⟨h.require session.toLedger tag text hscript.1 hinv, session.toLedger.grows_require tag text⟩
    exact hstep.trans
      (ih hscript.2 { session with toLedger := _ } hstep.inv (hhold.require tag text))
  | define name text next ih =>
    have hstep : session.toLedger.Leads inv (session.toLedger.define name text) :=
      ⟨h.define session.toLedger notes name text hhold hscript.1 hinv,
        session.toLedger.grows_define name text⟩
    exact hstep.trans (ih hscript.2 { session with toLedger := _ } hstep.inv
      (hhold.grow hstep.grows))

theorem ofNode (h : rules.Keep setting.config.indentUnit inv)
    (hheeds : setting.Heeds rules) (node : Node) {inputs branches : List (String × Offer)}
    {rest : Synth String} (hinputs : ∀ entry ∈ inputs, entry.2.Steady inv)
    (hbranches : ∀ entry ∈ branches, entry.2.Steady inv) (hrest : Synth.Steady inv rest) :
    (Offer.ofNode setting node inputs branches rest).Steady inv := by
  have hemission : Synth.Steady inv (Offer.ofNode setting node inputs branches rest).emission := by
    unfold Offer.ofNode
    cases hfind : setting.target.catalog.find? node.kind with
    | none => exact Synth.Steady.throw _
    | some emitter =>
      have hscript := hheeds.find? hfind node
      exact fun session hinv =>
        h.run hinputs hbranches hscript session hinv (notes_empty_hold session.toLedger)
  refine ⟨hemission, fun place => ?_, ?_⟩
  · show Synth.Steady inv (if node.disabled then pure none else _)
    split
    · exact Synth.Steady.pure none
    · exact hemission.bind fun emission => Synth.Steady.ofExcept _
  · have hfollow : ∀ here : String, Synth.Steady inv (do return here ++ (← rest)) :=
      fun here => hrest.bind fun more => Synth.Steady.pure _
    show Synth.Steady inv (if node.disabled then _ else _)
    split
    · exact (Synth.Steady.pure "").bind hfollow
    · exact hemission.bind fun emission => (Synth.Steady.ofExcept _).bind hfollow

mutual

theorem offer (h : rules.Keep setting.config.indentUnit inv)
    (hheeds : setting.Heeds rules) (node : Node) :
    (node.offer setting).Steady inv := by
  obtain ⟨id, kind, fields, inputs, statements, next, comment, disabled, mutation⟩ := node
  exact h.ofNode hheeds _ (slotOffers_steady h hheeds inputs)
    (slotOffers_steady h hheeds statements) (chainOffer_steady h hheeds next)
termination_by structural node

theorem slotOffers_steady (h : rules.Keep setting.config.indentUnit inv)
    (hheeds : setting.Heeds rules) (slots : List (String × Node)) :
    ∀ entry ∈ slotOffers setting slots, entry.2.Steady inv := by
  cases slots with
  | nil => exact List.forall_mem_nil _
  | cons entry rest =>
    obtain ⟨slot, node⟩ := entry
    exact List.forall_mem_cons.mpr ⟨offer h hheeds node, slotOffers_steady h hheeds rest⟩
termination_by structural slots

theorem chainOffer_steady (h : rules.Keep setting.config.indentUnit inv)
    (hheeds : setting.Heeds rules) (next : Option Node) :
    Synth.Steady inv (chainOffer setting next) := by
  cases next with
  | none => exact Synth.Steady.pure ""
  | some node => exact (offer h hheeds node).chain
termination_by structural next

end

/-! ### Rendering -/

theorem renderValue (h : rules.Keep setting.config.indentUnit inv) (hheeds : setting.Heeds rules)
    (node : Option Node) (place : Rank) (fallback : String) :
    Synth.Steady inv (setting.renderValue node place fallback) := by
  cases node with
  | none => exact Synth.Steady.pure fallback
  | some node => exact ((h.offer hheeds node).value place).bind fun code => Synth.Steady.pure _

theorem renderRoot (h : rules.Keep setting.config.indentUnit inv)
    (hheeds : setting.Heeds rules) (root : Node) :
    Synth.Steady inv (setting.renderRoot root) := by
  unfold Setting.renderRoot
  split
  · exact h.chainOffer_steady hheeds root.next
  · refine (h.offer hheeds root).emission.bind fun emission => ?_
    have hstatement : Synth.Steady inv (do
        let here ← MonadExcept.ofExcept (emission.asStatement setting root)
        return here ++ (← setting.renderChain root.next)) := by
      refine (Synth.Steady.ofExcept (emission.asStatement setting root)).bind fun here => ?_
      exact (h.chainOffer_steady hheeds root.next).bind fun more => Synth.Steady.pure _
    cases emission with
    | value code rank =>
      show Synth.Steady inv (if code = "" then _ else _)
      split
      · exact Synth.Steady.pure ""
      · exact Synth.Steady.pure _
    | statement code => exact hstatement
    | nothing => exact hstatement

theorem renderRoots (h : rules.Keep setting.config.indentUnit inv) (hheeds : setting.Heeds rules)
    (roots : List Node) : Synth.Steady inv (setting.renderRoots roots) := by
  induction roots with
  | nil => exact Synth.Steady.pure []
  | cons root rest ih =>
    exact (h.renderRoot hheeds root).bind fun code => ih.bind fun codes => Synth.Steady.pure _

end Rules.Keep

/-- The sessions after a program has been opened and nodes have been rendered, some
perhaps with a fault. -/
inductive Underway (setting : Setting) (workspace : Workspace) : Session → Prop
  | opened : Underway setting workspace (setting.openProgram workspace setting.session)
  | value {session : Session} (node : Option Node) (place : Rank) (fallback : String) :
    Underway setting workspace session →
      Underway setting workspace ((setting.renderValue node place fallback).leaves session)
  | chain {session : Session} (first : Option Node) : Underway setting workspace session →
      Underway setting workspace ((setting.renderChain first).leaves session)
  | root {session : Session} (root : Node) : Underway setting workspace session →
      Underway setting workspace ((setting.renderRoot root).leaves session)

/-- What holds when a program is opened, and is kept by all that the rules allow,
holds from there on. -/
theorem Rules.Keep.underway {rules : Rules} {inv : Ledger → Prop}
    {setting : Setting} {workspace : Workspace}
    (h : rules.Keep setting.config.indentUnit inv) (hheeds : setting.Heeds rules)
    (hopened : inv (setting.openProgram workspace setting.session).toLedger) {session : Session}
    (hunderway : Underway setting workspace session) : inv session.toLedger := by
  induction hunderway with
  | opened => exact hopened
  | value node place fallback _ ih => exact (h.renderValue hheeds node place fallback _ ih).inv
  | chain first _ ih => exact (h.chainOffer_steady hheeds first _ ih).inv
  | root root _ ih => exact (h.renderRoot hheeds root _ ih).inv

end BlockSynth
