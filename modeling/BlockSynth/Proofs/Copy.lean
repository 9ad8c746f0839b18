import BlockSynth.Proofs.Render
import Mathlib.Data.List.Forall2

/-! # Copies of nodes

A copy of a node may have another id and other slots. It is rendered alike if its
script asks the same questions and its slots give the same answers. Ids may be renamed
on the way, and are then found renamed on the stack of loops and in faults; a script
that is told the id of a loop has to do the same for the new one.
-/
namespace BlockSynth

def Fault.renamed (rename : String → String) : Fault → Fault
  | unhandledKind kind id => unhandledKind kind (rename id)
  | unhandledOption kind id field value => unhandledOption kind (rename id) field value
  | wrongShape kind id expected => wrongShape kind (rename id) expected

@[simp] theorem Fault.renamed_id (fault : Fault) : fault.renamed id = fault := by
  cases fault <;> rfl

def Session.renamed (rename : String → String) (session : Session) : Session :=
  { session with loops := session.loops.map rename }

@[simp] theorem Session.renamed_id (session : Session) : session.renamed id = session := by
  simp [Session.renamed]

/-! ### Scripts -/

namespace Script

variable {α β : Type} {fault : Fault → Fault} {rename : String → String}

/-- The script with its faults changed, and with the id of the innermost loop changed
before it hears of it. -/
def recast (fault : Fault → Fault) (rename : String → String) : Script α → Script α
  | done answer => done answer
  | fail found => fail (fault found)
  | value slot rank next => value slot rank fun code => (next code).recast fault rename
  | statements slot next => statements slot fun code => (next code).recast fault rename
  | loopBody slot next => loopBody slot fun code => (next code).recast fault rename
  | enclosingLoop next => enclosingLoop fun loop => (next (loop.map rename)).recast fault rename
  | resolve space name next => resolve space name fun word => (next word).recast fault rename
  | fresh name next => fresh name fun word => (next word).recast fault rename
  | helper key template next => helper key template fun name => (next name).recast fault rename
  | require tag text next => require tag text (next.recast fault rename)
  | define name text next => define name text (next.recast fault rename)

@[simp] theorem recast_bind (script : Script α) (next : α → Script β) :
    (script >>= next).recast fault rename =
      script.recast fault rename >>= fun answer => (next answer).recast fault rename := by
  show (script.bind next).recast fault rename =
    (script.recast fault rename).bind fun answer => (next answer).recast fault rename
  induction script with
  | done answer => rfl
  | fail found => rfl
  | value slot rank rest ih => exact congrArg (value slot rank) (funext ih)
  | statements slot rest ih => exact congrArg (statements slot) (funext ih)
  | loopBody slot rest ih => exact congrArg (loopBody slot) (funext ih)
  | enclosingLoop rest ih => exact congrArg enclosingLoop (funext fun loop => ih (loop.map rename))
  | resolve space name rest ih => exact congrArg (resolve space name) (funext ih)
  | fresh name rest ih => exact congrArg (fresh name) (funext ih)
  | helper key template rest ih => exact congrArg (helper key template) (funext ih)
  | require tag text rest ih => exact congrArg (require tag text) ih
  | define name text rest ih => exact congrArg (define name text) ih

@[simp] theorem recast_pure (answer : α) :
    (Pure.pure answer : Script α).recast fault rename = Pure.pure answer := rfl

@[simp] theorem recast_done (answer : α) : (done answer).recast fault rename = done answer := rfl

@[simp] theorem recast_fail (found : Fault) :
    (fail found : Script α).recast fault rename = fail (fault found) := rfl

@[simp] theorem recast_map (script : Script α) (f : α → β) :
    (f <$> script).recast fault rename = f <$> script.recast fault rename :=
  recast_bind script fun answer => done (f answer)

@[simp] theorem recast_ite (c : Prop) [Decidable c] (script other : Script α) :
    (if c then script else other).recast fault rename =
      if c then script.recast fault rename else other.recast fault rename := by
  split <;> rfl

/-- Nothing changes where nothing is renamed. -/
theorem recast_id (script : Script α) : script.recast id id = script := by
  induction script with
  | done answer => rfl
  | fail found => rfl
  | value slot rank rest ih => exact congrArg (value slot rank) (funext ih)
  | statements slot rest ih => exact congrArg (statements slot) (funext ih)
  | loopBody slot rest ih => exact congrArg (loopBody slot) (funext ih)
  | enclosingLoop rest ih =>
    exact congrArg enclosingLoop
      (funext fun loop => (ih (loop.map id)).trans (by rw [Option.map_id_apply]))
  | resolve space name rest ih => exact congrArg (resolve space name) (funext ih)
  | fresh name rest ih => exact congrArg (fresh name) (funext ih)
  | helper key template rest ih => exact congrArg (helper key template) (funext ih)
  | require tag text rest ih => exact congrArg (require tag text) ih
  | define name text rest ih => exact congrArg (define name text) ih

/-! ### Requests -/

@[simp] theorem recast_askValue (slot : String) (rank : Rank) :
    (askValue slot rank).recast fault rename = askValue slot rank := rfl

@[simp] theorem recast_valueOr (slot : String) (rank : Rank) (fallback : String) :
    (valueOr slot rank fallback).recast fault rename = valueOr slot rank fallback := rfl

@[simp] theorem recast_valuesOr (rank : Rank) (fallback : String) (slots : List String) :
    (valuesOr rank fallback slots).recast fault rename = valuesOr rank fallback slots := by
  induction slots with
  | nil => rfl
  | cons slot rest ih => simp [valuesOr, ih]

@[simp] theorem recast_askStatements (slot : String) :
    (askStatements slot).recast fault rename = askStatements slot := rfl

@[simp] theorem recast_askLoopBody (slot : String) :
    (askLoopBody slot).recast fault rename = askLoopBody slot := rfl

@[simp] theorem recast_variableName (name : String) :
    (variableName name).recast fault rename = variableName name := rfl

@[simp] theorem recast_procedureName (name : String) :
    (procedureName name).recast fault rename = procedureName name := rfl

@[simp] theorem recast_variableNames (names : List String) :
    (variableNames names).recast fault rename = variableNames names := by
  induction names with
  | nil => rfl
  | cons name rest ih => simp [variableNames, ih]

@[simp] theorem recast_freshName (name : String) :
    (freshName name).recast fault rename = freshName name := rfl

@[simp] theorem recast_askHelper (key template : String) :
    (askHelper key template).recast fault rename = askHelper key template := rfl

@[simp] theorem recast_requireText (tag text : String) :
    (requireText tag text).recast fault rename = requireText tag text := rfl

@[simp] theorem recast_defineText (name text : String) :
    (defineText name text).recast fault rename = defineText name text := rfl

@[simp] theorem recast_index (config : Config) (slot : String)
    (delta : Int) (negate : Bool) (place : Rank) :
    (index config slot delta negate place).recast fault rename =
      index config slot delta negate place := rfl

@[simp] theorem recast_cache (declare : String → String → String) (code name : String) :
    (cache declare code name).recast fault rename = cache declare code name := by
  simp only [cache, recast_ite]
  rfl

/-- A script that hears no difference between the old and the new ids of loops. -/
def Deaf (rename : String → String) (script : Script α) : Prop :=
  script.recast id rename = script

theorem deaf_id (script : Script α) : script.Deaf id :=
  recast_id script

/-- It does the same for the old id and the new one, and goes on that way. -/
theorem Deaf.enclosingLoop {next : Option String → Script α} (h : (enclosingLoop next).Deaf rename)
    (hidem : ∀ id, rename (rename id) = rename id) (loop : Option String) :
    next (loop.map rename) = next loop ∧ (next loop).Deaf rename := by
  have hheard : ∀ loop, (next (loop.map rename)).recast id rename = next loop :=
    congrFun (Script.enclosingLoop.inj h)
  have hagain : (loop.map rename).map rename = loop.map rename := by
    rw [Option.map_map]
    exact congrArg (Option.map · loop) (funext hidem)
  have hsame : next (loop.map rename) = next loop := by
    have hnew := hheard (loop.map rename)
    rw [hagain] at hnew
    exact hnew.symm.trans (hheard loop)
  have hdeaf := hheard loop
  rw [hsame] at hdeaf
  exact ⟨hsame, hdeaf⟩

end Script

/-! ### Steps -/

namespace Synth

variable {α β : Type} {rename : String → String}

/-- The second step does from the renamed session what the first one does. -/
def Copies (rename : String → String) (step copy : Synth α) : Prop :=
  ∀ session, copy (session.renamed rename) = match step session with
    | .ok answer next => .ok answer (next.renamed rename)
    | .error fault next => .error (fault.renamed rename) (next.renamed rename)

theorem Copies.pure (answer : α) : Copies rename (Pure.pure answer) (Pure.pure answer) :=
  fun _ => rfl

theorem Copies.throw {found shown : Fault} (h : shown = found.renamed rename) :
    Copies rename (MonadExcept.throw found : Synth α) (MonadExcept.throw shown) := by
  subst h
  exact fun _ => rfl

theorem Copies.bind {step copy : Synth α}
    {next copyNext : α → Synth β} (h : Copies rename step copy)
    (hnext : ∀ answer, Copies rename (next answer) (copyNext answer)) :
    Copies rename (step >>= next) (copy >>= copyNext) := by
  intro session
  have hstep := h session
  show EStateM.bind copy copyNext (session.renamed rename) =
    match EStateM.bind step next session with
    | .ok answer after => .ok answer (after.renamed rename)
    | .error fault after => .error (fault.renamed rename) (after.renamed rename)
  unfold EStateM.bind
  cases hrun : step session with
  | ok answer after =>
    rw [hrun] at hstep
    rw [hstep]
    exact hnext answer after
  | error fault after =>
    rw [hrun] at hstep
    rw [hstep]

theorem Copies.onLedger (step : Ledger → α × Ledger) :
    Copies rename (onLedger step) (onLedger step) :=
  fun _ => rfl

theorem Copies.inLoop {id : String} {body copy : Synth α} (h : Copies rename body copy) :
    Copies rename (inLoop id body) (inLoop (rename id) copy) := by
  intro session
  have hbody := h { session with loops := id :: session.loops }
  have henter : ({ session with loops := id :: session.loops } : Session).renamed rename =
    { session.renamed rename with loops := rename id :: (session.renamed rename).loops } := rfl
  rw [henter] at hbody
  unfold Synth.inLoop
  rw [hbody]
  cases body { session with loops := id :: session.loops } with
  | ok answer after => simp [Session.renamed, List.map_tail]
  | error fault after => simp [Session.renamed, List.map_tail]

theorem Copies.ofExcept {result shown : Except Fault α}
    (h : shown = result.mapError (Fault.renamed rename)) :
    Copies rename (MonadExcept.ofExcept result) (MonadExcept.ofExcept shown) := by
  subst h
  cases result with
  | ok answer => exact Copies.pure answer
  | error fault => exact Copies.throw rfl

/-- Without renaming, a copy is the step itself. -/
theorem copies_id {step copy : Synth α} : Copies id step copy ↔ copy = step := by
  have hsame : ∀ result : EStateM.Result Fault Session α, (match result with
      | .ok answer next => .ok answer (next.renamed id)
      | .error fault next => .error (fault.renamed id) (next.renamed id)) = result := by
    intro result
    cases result <;> simp
  constructor
  · intro h
    funext session
    have hcopy := h session
    rwa [hsame, Session.renamed_id] at hcopy
  · rintro rfl session
    rw [hsame, Session.renamed_id]

end Synth

open Synth (Copies)

/-! ### Runs of scripts -/

section Runs

variable {α : Type} {setting : Setting} {rename : String → String}

/-- The run of a script is copied by that of the script with renamed faults, if its
slots are copied. -/
theorem Script.run_copies {here there : String}
    {inputs branches copyInputs copyBranches : List (String × Offer)}
    (hidem : ∀ id, rename (rename id) = rename id) (hid : there = rename here)
    (htrap : ∀ body, setting.trapLoop body there = setting.trapLoop body here)
    (hvalue : ∀ slot rank, Copies rename (atSlot inputs slot none fun offer => offer.value rank)
      (atSlot copyInputs slot none fun offer => offer.value rank))
    (hchain : ∀ slot,
      Copies rename (atSlot branches slot "" Offer.chain) (atSlot copyBranches slot "" Offer.chain))
    {script : Script α} (hdeaf : script.Deaf rename) :
    Copies rename (script.run setting here inputs branches)
      ((script.recast (Fault.renamed rename) rename).run setting there copyInputs
        copyBranches) := by
  induction script with
  | done answer => exact Copies.pure answer
  | fail fault => exact Copies.throw rfl
  | value slot rank next ih =>
    exact (hvalue slot rank).bind fun code => ih code (congrFun (Script.value.inj hdeaf).2.2 code)
  | statements slot next ih =>
    exact (hchain slot).bind fun code => ih _ (congrFun (Script.statements.inj hdeaf).2 _)
  | loopBody slot next ih =>
    subst hid
    refine (hchain slot).inLoop.bind fun code => ?_
    simp only [htrap]
    exact ih _ (congrFun (Script.loopBody.inj hdeaf).2 _)
  | enclosingLoop next ih =>
    intro session
    obtain ⟨hsame, hnext⟩ := hdeaf.enclosingLoop hidem session.loops.head?
    have hheard : next ((session.loops.map rename).head?.map rename) =
        next session.loops.head? := by
      rw [List.head?_map, (hdeaf.enclosingLoop hidem (session.loops.head?.map rename)).1, hsame]
    refine Eq.trans ?_ (ih session.loops.head? hnext session)
    show (recast (Fault.renamed rename) rename
      (next ((session.loops.map rename).head?.map rename))).run setting
      there copyInputs copyBranches (session.renamed rename) = _
    rw [hheard]
  | resolve space name next ih =>
    exact (Copies.onLedger _).bind fun word =>
      ih word (congrFun (Script.resolve.inj hdeaf).2.2 word)
  | fresh name next ih =>
    exact (Copies.onLedger _).bind fun word => ih word (congrFun (Script.fresh.inj hdeaf).2 word)
  | helper key template next ih =>
    exact (Copies.onLedger _).bind fun word => ih word (congrFun (Script.helper.inj hdeaf).2.2 word)
  | require tag text next ih =>
    exact (Copies.onLedger _).bind fun _ => ih (Script.require.inj hdeaf).2.2
  | define name text next ih =>
    exact (Copies.onLedger _).bind fun _ => ih (Script.define.inj hdeaf).2.2

end Runs

/-! ### Nodes -/

/-- What a node answers in a value slot, or an empty slot. -/
def valueOffer (setting : Setting) (place : Rank) : Option Node → Synth (Option String)
  | none => pure none
  | some node => (node.offer setting).value place

theorem atSlot_value (setting : Setting)
    (slots : List (String × Node)) (slot : String) (place : Rank) :
    Script.atSlot (slotOffers setting slots) slot none (fun offer => offer.value place) =
      valueOffer setting place (slots.lookup slot) := by
  unfold Script.atSlot
  rw [lookup_slotOffers]
  cases slots.lookup slot <;> rfl

theorem valueOffer_of_disabled {setting : Setting}
    {node : Node} (h : node.disabled = true) (place : Rank) :
    valueOffer setting place (some node) = pure none := by
  show (node.offer setting).value place = pure none
  rw [value_offer, h, if_pos rfl]

theorem chainOffer_of_disabled {setting : Setting} {node : Node} (h : node.disabled = true) :
    chainOffer setting (some node) = chainOffer setting node.next := by
  rw [chainOffer_some, h]
  funext session
  show EStateM.bind (chainOffer setting node.next) (fun more => pure ("" ++ more)) session = _
  unfold EStateM.bind
  cases chainOffer setting node.next session <;> simp [pure, EStateM.pure]

/-- A copy for which the target has the same text and the same script, up to ids. -/
structure Setting.Resembles (setting : Setting) (rename : String → String)
    (node copy : Node) : Prop where
  id : copy.id = rename node.id
  kind : copy.kind = node.kind
  disabled : copy.disabled = node.disabled
  comments : setting.comments copy = setting.comments node
  before : setting.before copy.id = setting.before node.id
  after : setting.after copy.id = setting.after node.id
  trap : setting.trap copy.id = setting.trap node.id
  script : ∀ emitter, setting.target.catalog.find? node.kind = some emitter →
    emitter.script setting.config copy =
        (emitter.script setting.config node).recast (Fault.renamed rename) rename ∧
      (emitter.script setting.config node).Deaf rename

namespace Setting.Resembles

variable {setting : Setting} {rename : String → String} {node copy : Node}

theorem ofKind (h : setting.Resembles rename node copy) :
    Fault.ofKind copy = (Fault.ofKind node).renamed rename := by
  simp [Fault.ofKind, Fault.renamed, h.id, h.kind]

theorem ofShape (h : setting.Resembles rename node copy) (expected : Shape) :
    Fault.ofShape copy expected = (Fault.ofShape node expected).renamed rename := by
  simp [Fault.ofShape, Fault.renamed, h.id, h.kind]

theorem trapLoop (h : setting.Resembles rename node copy) (body : String) :
    setting.trapLoop body copy.id = setting.trapLoop body node.id := by
  have hbefore := h.before
  have hafter := h.after
  have htrap := h.trap
  unfold Setting.before at hbefore
  unfold Setting.after at hafter
  unfold Setting.trap at htrap
  simp only [Setting.trapLoop, Config.trapLoop, hbefore, hafter, htrap]

theorem asValue (h : setting.Resembles rename node copy) (place : Rank) (emission : Emission) :
    emission.asValue copy place =
      (emission.asValue node place).mapError (Fault.renamed rename) := by
  cases emission with
  | value code rank => rfl
  | statement code => exact congrArg Except.error (h.ofShape .value)
  | nothing => exact congrArg Except.error (h.ofShape .value)

theorem asStatement (h : setting.Resembles rename node copy) (emission : Emission) :
    emission.asStatement setting copy =
      (emission.asStatement setting node).mapError (Fault.renamed rename) := by
  cases emission with
  | value code rank => exact congrArg Except.error (h.ofShape .statement)
  | statement code =>
    unfold Emission.asStatement
    rw [h.kind, h.comments, h.before, h.after]
    rfl
  | nothing => rfl

/-- The emission of a node is copied if its slots are. -/
theorem emission (h : setting.Resembles rename node copy)
    (hidem : ∀ id, rename (rename id) = rename id)
    (hinput : ∀ slot place, Copies rename (valueOffer setting place (node.input slot))
      (valueOffer setting place (copy.input slot)))
    (hbranch : ∀ slot, Copies rename (chainOffer setting (node.statement slot))
      (chainOffer setting (copy.statement slot))) :
    Copies rename (node.offer setting).emission (copy.offer setting).emission := by
  rw [Node.offer_eq, Node.offer_eq]
  unfold Offer.ofNode
  dsimp only
  rw [h.kind]
  cases hfind : setting.target.catalog.find? node.kind with
  | none => exact Copies.throw h.ofKind
  | some emitter =>
    obtain ⟨hscript, hdeaf⟩ := h.script emitter hfind
    dsimp only
    rw [hscript]
    refine Script.run_copies hidem h.id h.trapLoop (fun slot rank => ?_) (fun slot => ?_) hdeaf
    · rw [atSlot_value, atSlot_value]
      exact hinput slot rank
    · rw [atSlot_chain, atSlot_chain]
      exact hbranch slot

theorem value (h : setting.Resembles rename node copy)
    (hemission : Copies rename (node.offer setting).emission (copy.offer setting).emission)
    (place : Rank) :
    Copies rename (valueOffer setting place (some node))
      (valueOffer setting place (some copy)) := by
  show Copies rename ((node.offer setting).value place) ((copy.offer setting).value place)
  rw [value_offer, value_offer, h.disabled]
  split
  · exact Copies.pure none
  · exact hemission.bind fun emission => Copies.ofExcept (h.asValue place emission)

theorem chain (h : setting.Resembles rename node copy)
    (hemission : Copies rename (node.offer setting).emission (copy.offer setting).emission)
    (hnext : Copies rename (chainOffer setting node.next) (chainOffer setting copy.next)) :
    Copies rename (chainOffer setting (some node)) (chainOffer setting (some copy)) := by
  have hfollow : ∀ here : String, Copies rename (do return here ++ (← chainOffer setting node.next))
      (do return here ++ (← chainOffer setting copy.next)) :=
    fun here => hnext.bind fun more => Copies.pure _
  rw [chainOffer_some, chainOffer_some, h.disabled]
  split
  · exact (Copies.pure "").bind hfollow
  · exact hemission.bind fun emission => (Copies.ofExcept (h.asStatement emission)).bind hfollow

theorem renderRoot (h : setting.Resembles rename node copy)
    (hemission : Copies rename (node.offer setting).emission (copy.offer setting).emission)
    (hnext : Copies rename (chainOffer setting node.next) (chainOffer setting copy.next)) :
    Copies rename (setting.renderRoot node) (setting.renderRoot copy) := by
  unfold Setting.renderRoot
  rw [h.disabled]
  split
  · exact hnext
  · refine hemission.bind fun emission => ?_
    have hstatement : Copies rename
        (do let here ← MonadExcept.ofExcept (emission.asStatement setting node)
            return here ++ (← setting.renderChain node.next))
        (do let here ← MonadExcept.ofExcept (emission.asStatement setting copy)
            return here ++ (← setting.renderChain copy.next)) :=
      (Copies.ofExcept (h.asStatement emission)).bind fun here =>
        hnext.bind fun more => Copies.pure _
    cases emission with
    | value code rank =>
      dsimp only
      rw [h.comments, h.before, h.after]
      split
      · exact Copies.pure ""
      · exact Copies.pure _
    | statement code => exact hstatement
    | nothing => exact hstatement

end Setting.Resembles

/-- A copy under the same id needs the same script. -/
theorem Setting.resembles_id {setting : Setting} {node copy : Node} (hid : copy.id = node.id)
    (hkind : copy.kind = node.kind) (hdisabled : copy.disabled = node.disabled)
    (hcomments : setting.comments copy = setting.comments node)
    (hscript : ∀ emitter, setting.target.catalog.find? node.kind = some emitter →
      emitter.script setting.config copy = emitter.script setting.config node) :
    setting.Resembles id node copy where
  id := hid
  kind := hkind
  disabled := hdisabled
  comments := hcomments
  before := congrArg _ hid
  after := congrArg _ hid
  trap := congrArg _ hid
  script emitter hfind := by
    rw [hscript emitter hfind, funext Fault.renamed_id]
    exact ⟨(Script.recast_id _).symm, Script.deaf_id _⟩

/-! ### Workspaces -/

section Workspaces

variable {setting : Setting} {rename : String → String}

theorem renderRoots_copies {roots copies : List Node}
    (h : List.Forall₂ (fun root copy =>
      Copies rename (setting.renderRoot root) (setting.renderRoot copy)) roots copies) :
    Copies rename (setting.renderRoots roots) (setting.renderRoots copies) := by
  induction h with
  | nil => exact Copies.pure []
  | cons hroot _ ih => exact hroot.bind fun code => ih.bind fun codes => Copies.pure _

/-- Workspaces that open alike and whose roots are rendered alike give the same
program, or the same fault up to ids. -/
theorem generate_copies {workspace copy : Workspace}
    (hopening : setting.target.opening copy = setting.target.opening workspace)
    (hroots : List.Forall₂ (fun root copy =>
      Copies rename (setting.renderRoot root) (setting.renderRoot copy))
      workspace.roots copy.roots) :
    setting.generate copy = (setting.generate workspace).mapError (Fault.renamed rename) := by
  have hopened : setting.openProgram copy setting.session =
      (setting.openProgram workspace setting.session).renamed rename := by
    unfold Setting.openProgram
    rw [hopening]
    rfl
  have hrun := renderRoots_copies hroots (setting.openProgram workspace setting.session)
  unfold Setting.generate
  rw [hopened, hrun]
  cases setting.renderRoots workspace.roots (setting.openProgram workspace setting.session) with
  | ok codes next => rfl
  | error fault next => rfl

/-- Without renaming, the results are the same. -/
theorem generate_congr {workspace copy : Workspace}
    (hopening : setting.target.opening copy = setting.target.opening workspace)
    (hroots : List.Forall₂ (fun root copy => setting.renderRoot copy = setting.renderRoot root)
      workspace.roots copy.roots) : setting.generate copy = setting.generate workspace := by
  have hcopies := generate_copies hopening (hroots.imp fun _ _ h => Synth.copies_id.mpr h)
  rw [hcopies, funext Fault.renamed_id]
  cases setting.generate workspace <;> rfl

end Workspaces

end BlockSynth
