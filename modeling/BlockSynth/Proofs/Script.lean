import BlockSynth.Script

/-! # Terms of a script

What a script does is judged without running it. Its terms say what the answers to its
requests are like and what it may ask to be recorded; a script meets a goal if it ends
in it whatever answers of that kind it gets.
-/
namespace BlockSynth

instance : LawfulMonad Script := by
  refine LawfulMonad.mk' Script (fun script => ?_) (fun _ _ => rfl) fun script f g => ?_
  · show script.bind Script.done = script
    induction script <;> simp_all only [Script.bind]
  · show (script.bind f).bind g = script.bind fun answer => (f answer).bind g
    induction script <;> simp_all only [Script.bind]

structure Terms where
  /-- The code of a value slot at a place of the given rank. -/
  value : Rank → String → Prop
  /-- The code of the given statement slot. -/
  lines : String → String → Prop
  /-- The same as the body of a loop. -/
  body : String → String → Prop
  /-- The id of the innermost loop. -/
  loop : Option String → Prop
  /-- The words that names and helpers get. -/
  word : String → Prop
  /-- The words that are drawn for a use of their own. -/
  fresh : String → Prop := word
  helper : String → Prop
  require : String → Prop
  define : String → Prop

/-- Anything may be answered, and anything may be recorded. -/
def Terms.free : Terms where
  value _ _ := True
  lines _ _ := True
  body _ _ := True
  loop _ := True
  word _ := True
  helper _ := True
  require _ := True
  define _ := True

/-- The same terms, where the drawn words are one's own. -/
def Terms.drawing (terms : Terms) (own : String → Prop) : Terms :=
  { terms with fresh := fun word => terms.fresh word ∧ own word }

theorem Terms.drawing_any (terms : Terms) : terms.drawing (fun _ => True) = terms := by
  simp [drawing]

namespace Script

variable {α β : Type} {terms : Terms} {goal : α → Prop}

def Meets (terms : Terms) (goal : α → Prop) : Script α → Prop
  | done answer => goal answer
  | fail _ => True
  | value _ rank next =>
    ∀ code : Option String, (∀ text ∈ code, terms.value rank text) → (next code).Meets terms goal
  | statements slot next => ∀ code, terms.lines slot code → (next code).Meets terms goal
  | loopBody slot next => ∀ code, terms.body slot code → (next code).Meets terms goal
  | enclosingLoop next => ∀ id, terms.loop id → (next id).Meets terms goal
  | resolve _ _ next => ∀ word, terms.word word → (next word).Meets terms goal
  | fresh _ next => ∀ word, terms.fresh word → (next word).Meets terms goal
  | helper _ template next =>
    terms.helper template ∧ ∀ word, terms.word word → (next word).Meets terms goal
  | require _ text next => terms.require text ∧ next.Meets terms goal
  | define _ text next => terms.define text ∧ next.Meets terms goal

theorem Meets.bind {middle : α → Prop} {goal : β → Prop} {script : Script α}
    {next : α → Script β} (h : script.Meets terms middle)
    (hnext : ∀ answer, middle answer → (next answer).Meets terms goal) :
    (script >>= next).Meets terms goal := by
  show (script.bind next).Meets terms goal
  induction script with
  | done answer => exact hnext answer h
  | fail fault => exact trivial
  | value slot rank rest ih => exact fun code hcode => ih code (h code hcode)
  | statements slot rest ih => exact fun code hcode => ih code (h code hcode)
  | loopBody slot rest ih => exact fun code hcode => ih code (h code hcode)
  | enclosingLoop rest ih => exact fun id hid => ih id (h id hid)
  | resolve space name rest ih => exact fun word hword => ih word (h word hword)
  | fresh name rest ih => exact fun word hword => ih word (h word hword)
  | helper key template rest ih => exact ⟨h.1, fun word hword => ih word (h.2 word hword)⟩
  | require tag text rest ih => exact ⟨h.1, ih h.2⟩
  | define name text rest ih => exact ⟨h.1, ih h.2⟩

theorem Meets.pure {answer : α} (h : goal answer) :
    (Pure.pure answer : Script α).Meets terms goal := h

theorem Meets.map {middle : α → Prop} {goal : β → Prop} {script : Script α} {f : α → β}
    (h : script.Meets terms middle) (hf : ∀ answer, middle answer → goal (f answer)) :
    (f <$> script).Meets terms goal :=
  Meets.bind h hf

/-! ### Requests -/

theorem meets_valueOr (slot : String) {rank : Rank}
    {fallback : String} (h : terms.value rank fallback) :
    (valueOr slot rank fallback).Meets terms (terms.value rank) := by
  intro code hcode
  cases code with
  | none => exact h
  | some text => exact hcode text rfl

theorem meets_askStatements (slot : String) : (askStatements slot).Meets terms (terms.lines slot) :=
  fun _ hcode => hcode

theorem meets_askLoopBody (slot : String) : (askLoopBody slot).Meets terms (terms.body slot) :=
  fun _ hcode => hcode

theorem meets_askLoop : askLoop.Meets terms terms.loop :=
  fun _ hid => hid

theorem meets_variableName (name : String) : (variableName name).Meets terms terms.word :=
  fun _ hword => hword

theorem meets_variableNames (names : List String) :
    (variableNames names).Meets terms fun words => ∀ word ∈ words, terms.word word := by
  induction names with
  | nil => exact List.forall_mem_nil _
  | cons name rest ih =>
    refine (meets_variableName name).bind fun word hword => ih.bind fun words hwords => ?_
    exact List.forall_mem_cons.mpr ⟨hword, hwords⟩

theorem meets_freshName (name : String) : (freshName name).Meets terms terms.fresh :=
  fun _ hword => hword

theorem meets_defineText (name : String) {text : String} (h : terms.define text) :
    (defineText name text).Meets terms fun _ => True :=
  ⟨h, trivial⟩

/-- A script that records nothing out of bounds meets every goal that its answers do. -/
theorem meets_of_forall (hhelper : ∀ template, terms.helper template)
    (hrequire : ∀ text, terms.require text) (hdefine : ∀ text, terms.define text)
    (hgoal : ∀ answer, goal answer) (script : Script α) :
    script.Meets terms goal := by
  induction script with
  | done answer => exact hgoal answer
  | fail fault => exact trivial
  | value slot rank rest ih => exact fun code _ => ih code
  | statements slot rest ih => exact fun code _ => ih code
  | loopBody slot rest ih => exact fun code _ => ih code
  | enclosingLoop rest ih => exact fun id _ => ih id
  | resolve space name rest ih => exact fun word _ => ih word
  | fresh name rest ih => exact fun word _ => ih word
  | helper key template rest ih => exact ⟨hhelper template, fun word _ => ih word⟩
  | require tag text rest ih => exact ⟨hrequire text, ih⟩
  | define name text rest ih => exact ⟨hdefine text, ih⟩

/-! ### Free terms -/

theorem meets_free (script : Script α) : script.Meets .free fun _ => True :=
  script.meets_of_forall (fun _ => trivial) (fun _ => trivial) (fun _ => trivial) fun _ => trivial

theorem meets_free_bind {goal : β → Prop} {script : Script α} {next : α → Script β}
    (h : ∀ answer, (next answer).Meets .free goal) : (script >>= next).Meets .free goal :=
  (meets_free script).bind fun answer _ => h answer

/-- What holds whatever is answered holds on all terms that leave the script to record
what it likes. -/
theorem Meets.of_free {goal' : α → Prop} {script : Script α} (h : script.Meets .free goal)
    (himp : ∀ answer, goal answer → goal' answer) (hhelper : ∀ template, terms.helper template)
    (hrequire : ∀ text, terms.require text) (hdefine : ∀ text, terms.define text) :
    script.Meets terms goal' := by
  induction script with
  | done answer => exact himp answer h
  | fail fault => exact trivial
  | value slot rank rest ih => exact fun code _ => ih code (h code fun _ _ => trivial)
  | statements slot rest ih => exact fun code _ => ih code (h code trivial)
  | loopBody slot rest ih => exact fun code _ => ih code (h code trivial)
  | enclosingLoop rest ih => exact fun id _ => ih id (h id trivial)
  | resolve space name rest ih => exact fun word _ => ih word (h word trivial)
  | fresh name rest ih => exact fun word _ => ih word (h word trivial)
  | helper key template rest ih =>
    exact ⟨hhelper template, fun word _ => ih word (h.2 word trivial)⟩
  | require tag text rest ih => exact ⟨hrequire text, ih h.2⟩
  | define name text rest ih => exact ⟨hdefine text, ih h.2⟩

end Script

end BlockSynth
