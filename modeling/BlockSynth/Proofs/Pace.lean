import BlockSynth.Proofs.Script

/-! # Scripts that keep pace

Two scripts keep pace if they ask for the same things in the same order. The codes
that they are answered for a statement slot may differ, in a manner that says which
texts go together, and then what they write may differ in that manner. A script that
asks for no statement slot keeps pace with itself.
-/
namespace BlockSynth

/-- Which texts of two runs go together. -/
structure Manner where
  /-- The code of chains, and of slots. -/
  chain : String → String → Prop
  /-- The code of a statement. -/
  statement : String → String → Prop
  /-- The text of a definition. -/
  definition : String → String → Prop

variable {manner : Manner}

/-- Emissions that go together. Values are the same. -/
def Manner.Emits (manner : Manner) : Emission → Emission → Prop
  | .value code rank, .value code' rank' => code = code' ∧ rank = rank'
  | .statement code, .statement code' => manner.statement code code'
  | .nothing, .nothing => True
  | _, _ => False

/-! ### Scripts -/

namespace Script

variable {α β : Type}

/-- Scripts that ask for the same things, whatever they are answered. The codes of a statement slot
need only go together, and so do the answers in the end. -/
inductive Paced (manner : Manner) (goal : α → α → Prop) : Script α → Script α → Prop
  | done {answer answer' : α} : goal answer answer' → Paced manner goal (done answer) (done answer')
  | fail (fault : Fault) : Paced manner goal (fail fault) (fail fault)
  | value (slot : String) (rank : Rank) {next next' : Option String → Script α} :
    (∀ code, Paced manner goal (next code) (next' code)) →
      Paced manner goal (value slot rank next) (value slot rank next')
  | statements (slot : String) {next next' : String → Script α} :
    (∀ code code', manner.chain code code' → Paced manner goal (next code) (next' code')) →
      Paced manner goal (statements slot next) (statements slot next')
  | loopBody (slot : String) {next next' : String → Script α} :
    (∀ code code', manner.chain code code' → Paced manner goal (next code) (next' code')) →
      Paced manner goal (loopBody slot next) (loopBody slot next')
  | enclosingLoop {next next' : Option String → Script α} :
    (∀ id, Paced manner goal (next id) (next' id)) →
    Paced manner goal (enclosingLoop next) (enclosingLoop next')
  | resolve (space : Namespace) (name : String) {next next' : String → Script α} :
    (∀ word, Paced manner goal (next word) (next' word)) →
      Paced manner goal (resolve space name next) (resolve space name next')
  | fresh (name : String) {next next' : String → Script α} :
    (∀ word, Paced manner goal (next word) (next' word)) →
    Paced manner goal (fresh name next) (fresh name next')
  | helper (key template : String) {next next' : String → Script α} :
    (∀ word, Paced manner goal (next word) (next' word)) →
      Paced manner goal (helper key template next) (helper key template next')
  | require (tag text : String) {next next' : Script α} :
    Paced manner goal next next' →
    Paced manner goal (require tag text next) (require tag text next')
  | define (name : String) {text text' : String} {next next' : Script α} :
    manner.definition text text' → Paced manner goal next next' →
      Paced manner goal (define name text next) (define name text' next')

theorem Paced.bind {goal : β → β → Prop} {middle : α → α → Prop} {script other : Script α}
    {next next' : α → Script β} (h : script.Paced manner middle other)
    (hnext : ∀ answer answer',
      middle answer answer' → (next answer).Paced manner goal (next' answer')) :
    (script >>= next).Paced manner goal (other >>= next') := by
  show (script.bind next).Paced manner goal (other.bind next')
  induction h with
  | done hgoal => exact hnext _ _ hgoal
  | fail fault => exact .fail fault
  | value slot rank _ ih => exact .value slot rank ih
  | statements slot _ ih => exact .statements slot ih
  | loopBody slot _ ih => exact .loopBody slot ih
  | enclosingLoop _ ih => exact .enclosingLoop ih
  | resolve space name _ ih => exact .resolve space name ih
  | fresh name _ ih => exact .fresh name ih
  | helper key template _ ih => exact .helper key template ih
  | require tag text _ ih => exact .require tag text ih
  | define name htext _ ih => exact .define name htext ih

/-! ### Calm scripts -/

/-- The script asks for values and names only, and ends in an answer as wanted whatever it is
answered. Asking for no statement slot and defining nothing, it keeps pace with itself. -/
def Calm (goal : α → Prop) : Script α → Prop
  | done answer => goal answer
  | fail _ => True
  | value _ _ next => ∀ code, (next code).Calm goal
  | statements _ _ => False
  | loopBody _ _ => False
  | enclosingLoop next => ∀ id, (next id).Calm goal
  | resolve _ _ next => ∀ word, (next word).Calm goal
  | fresh _ next => ∀ word, (next word).Calm goal
  | helper _ _ next => ∀ word, (next word).Calm goal
  | require _ _ next => next.Calm goal
  | define _ _ _ => False

theorem Calm.paced {goal : α → Prop} {both : α → α → Prop} {script : Script α}
    (h : script.Calm goal) (hboth : ∀ answer, goal answer → both answer answer) :
    script.Paced manner both script := by
  induction script with
  | done answer => exact .done (hboth answer h)
  | fail fault => exact .fail fault
  | value slot rank next ih => exact .value slot rank fun code => ih code (h code)
  | statements slot next ih => exact h.elim
  | loopBody slot next ih => exact h.elim
  | enclosingLoop next ih => exact .enclosingLoop fun id => ih id (h id)
  | resolve space name next ih => exact .resolve space name fun word => ih word (h word)
  | fresh name next ih => exact .fresh name fun word => ih word (h word)
  | helper key template next ih => exact .helper key template fun word => ih word (h word)
  | require tag text next ih => exact .require tag text (ih h)
  | define name text next ih => exact h.elim

theorem Calm.mono {goal goal' : α → Prop} {script : Script α} (h : script.Calm goal)
    (himp : ∀ answer, goal answer → goal' answer) : script.Calm goal' := by
  induction script with
  | done answer => exact himp answer h
  | fail fault => exact trivial
  | value slot rank next ih => exact fun code => ih code (h code)
  | statements slot next ih => exact h.elim
  | loopBody slot next ih => exact h.elim
  | enclosingLoop next ih => exact fun id => ih id (h id)
  | resolve space name next ih => exact fun word => ih word (h word)
  | fresh name next ih => exact fun word => ih word (h word)
  | helper key template next ih => exact fun word => ih word (h word)
  | require tag text next ih => exact ih h
  | define name text next ih => exact h.elim

/-- A calm script meets its goal whatever the terms say about the answers, if they let
it record what it likes. -/
theorem Calm.meets {terms : Terms} {goal : α → Prop} {script : Script α} (h : script.Calm goal)
    (hhelper : ∀ template, terms.helper template) (hrequire : ∀ text, terms.require text) :
    script.Meets terms goal := by
  induction script with
  | done answer => exact h
  | fail fault => exact trivial
  | value slot rank next ih => exact fun code _ => ih code (h code)
  | statements slot next ih => exact h.elim
  | loopBody slot next ih => exact h.elim
  | enclosingLoop next ih => exact fun id _ => ih id (h id)
  | resolve space name next ih => exact fun word _ => ih word (h word)
  | fresh name next ih => exact fun word _ => ih word (h word)
  | helper key template next ih => exact ⟨hhelper template, fun word _ => ih word (h word)⟩
  | require tag text next ih => exact ⟨hrequire text, ih h⟩
  | define name text next ih => exact h.elim

/-- Both scripts may begin with the same calm one. -/
theorem Calm.bind {goal : β → β → Prop} {script : Script α}
    {next next' : α → Script β} (h : script.Calm fun _ => True)
    (hnext : ∀ answer, (next answer).Paced manner goal (next' answer)) :
    (script >>= next).Paced manner goal (script >>= next') := by
  have hsame : script.Paced manner (· = ·) script := h.paced fun _ _ => rfl
  refine hsame.bind fun answer answer' heq => ?_
  subst heq
  exact hnext answer

@[simp] theorem calm_bind (script : Script α) (next : α → Script β) (goal : β → Prop) :
    (script >>= next).Calm goal ↔ script.Calm fun answer => (next answer).Calm goal := by
  show (script.bind next).Calm goal ↔ _
  induction script with
  | done answer => exact Iff.rfl
  | fail fault => exact Iff.rfl
  | value slot rank rest ih => exact forall_congr' ih
  | statements slot rest ih => exact Iff.rfl
  | loopBody slot rest ih => exact Iff.rfl
  | enclosingLoop rest ih => exact forall_congr' ih
  | resolve space name rest ih => exact forall_congr' ih
  | fresh name rest ih => exact forall_congr' ih
  | helper key template rest ih => exact forall_congr' ih
  | require tag text rest ih => exact ih
  | define name text rest ih => exact Iff.rfl

section Requests

variable {goal : α → Prop}

@[simp] theorem calm_pure (answer : α) :
    (Pure.pure answer : Script α).Calm goal ↔ goal answer := Iff.rfl

@[simp] theorem calm_done (answer : α) : (done answer).Calm goal ↔ goal answer := Iff.rfl

@[simp] theorem calm_map (script : Script α) (f : α → β) (goal : β → Prop) :
    (f <$> script).Calm goal ↔ script.Calm fun answer => goal (f answer) :=
  calm_bind script (fun answer => done (f answer)) goal

@[simp] theorem calm_ite (c : Prop) [Decidable c] (script other : Script α) :
    (if c then script else other).Calm goal ↔ (c → script.Calm goal) ∧ (¬c → other.Calm goal) := by
  split <;> simp_all

@[simp] theorem calm_askValue (slot : String) (rank : Rank) {goal : Option String → Prop} :
    (askValue slot rank).Calm goal ↔ ∀ code, goal code := Iff.rfl

@[simp] theorem calm_valueOr (slot : String) (rank : Rank)
    (fallback : String) {goal : String → Prop} :
    (valueOr slot rank fallback).Calm goal ↔ ∀ code, goal code := by
  constructor
  · intro h code
    exact h (some code)
  · intro h code
    exact h (code.getD fallback)

@[simp] theorem calm_askLoop {goal : Option String → Prop} :
    askLoop.Calm goal ↔ ∀ id, goal id := Iff.rfl

@[simp] theorem calm_variableName (name : String) {goal : String → Prop} :
    (variableName name).Calm goal ↔ ∀ word, goal word := Iff.rfl

@[simp] theorem calm_procedureName (name : String) {goal : String → Prop} :
    (procedureName name).Calm goal ↔ ∀ word, goal word := Iff.rfl

@[simp] theorem calm_freshName (name : String) {goal : String → Prop} :
    (freshName name).Calm goal ↔ ∀ word, goal word := Iff.rfl

@[simp] theorem calm_askHelper (key template : String) {goal : String → Prop} :
    (askHelper key template).Calm goal ↔ ∀ word, goal word := Iff.rfl

@[simp] theorem calm_valuesOr (rank : Rank) (fallback : String) {goal : List String → Prop}
    (h : ∀ codes, goal codes) (slots : List String) : (valuesOr rank fallback slots).Calm goal := by
  induction slots generalizing goal with
  | nil => exact h []
  | cons slot rest ih =>
    simp only [valuesOr, calm_bind, calm_valueOr]
    exact fun code => ih fun codes => h (code :: codes)

@[simp] theorem calm_variableNames {goal : List String → Prop}
    (h : ∀ words, goal words) (names : List String) :
    (variableNames names).Calm goal := by
  induction names generalizing goal with
  | nil => exact h []
  | cons name rest ih =>
    simp only [variableNames, calm_bind, calm_variableName]
    exact fun word => ih fun words => h (word :: words)

@[simp] theorem calm_index (config : Config) (slot : String) (delta : Int)
    (negate : Bool) (place : Rank) {goal : String → Prop} (h : ∀ code, goal code) :
    (index config slot delta negate place).Calm goal := by
  simp only [index, calm_bind, calm_valueOr, calm_pure]
  exact fun code => h _

@[simp] theorem calm_cache (declare : String → String → String) (code name : String)
    {goal : Cached → Prop} (h : ∀ cached, goal cached) : (cache declare code name).Calm goal := by
  unfold cache
  split
  · exact h _
  · exact fun word => h _

end Requests

theorem paced_askStatements (slot : String) :
    (askStatements slot).Paced manner manner.chain (askStatements slot) :=
  .statements slot fun _ _ hcode => .done hcode

theorem paced_askLoopBody (slot : String) :
    (askLoopBody slot).Paced manner manner.chain (askLoopBody slot) :=
  .loopBody slot fun _ _ hcode => .done hcode

end Script

end BlockSynth
