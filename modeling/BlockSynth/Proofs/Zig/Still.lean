import BlockSynth.Proofs.Pace
import BlockSynth.Proofs.Text.Remark
import BlockSynth.Zig.Target

/-! # Zig emitters that ask for no statement slot

Most emitters ask for values and names only. Whatever they are answered, a statement of theirs ends
its last line, and there is something on that line.
-/
namespace BlockSynth.Zig

open Chars Script

/-! ### Finished lines -/

/-- The last line of the code has something on it, and is ended. -/
def Finished (code : String) : Prop :=
  ∃ front c, isBlank c = false ∧ code.toList = front ++ [c, '\n']

@[simp] theorem finished_append (lead : String) {code : String} (h : Finished code) :
    Finished (lead ++ code) := by
  obtain ⟨front, c, hc, hcode⟩ := h
  exact ⟨lead.toList ++ front, c, hc, by rw [String.toList_append, hcode, List.append_assoc]⟩

@[simp] theorem finished_ite (c : Prop) [Decidable c] {code other : String} (h : Finished code)
    (hother : Finished other) : Finished (if c then code else other) := by
  split
  · exact h
  · exact hother

@[simp] theorem finished_semicolon : Finished (toString ";\n") :=
  ⟨[], ';', by decide, rfl⟩

@[simp] theorem finished_call : Finished (toString ");\n") :=
  ⟨[')'], ';', by decide, rfl⟩

theorem Finished.strewn {code : String} (h : Finished code) (settled : Bool) :
    Strewn settled true code.toList code.toList := by
  obtain ⟨front, c, hc, hcode⟩ := h
  rw [hcode]
  exact strewn_solid settled front hc

theorem Finished.ne_empty {code : String} (h : Finished code) : code ≠ "" := by
  rintro rfl
  obtain ⟨front, c, -, hcode⟩ := h
  simp at hcode

@[simp] theorem finished_braces (lead head body : String) :
    Finished (lead ++ braces head body ++ "\n") := by
  refine ⟨(lead ++ (head ++ " \x7b\n" ++ body)).toList, '\x7d', by decide, ?_⟩
  show (lead ++ (head ++ " \x7b\n" ++ body ++ "\x7d") ++ "\n").toList = _
  simp

/-- An emission whose lines are finished, if it is a statement. -/
def Ended : Emission → Prop
  | .statement code => Finished code
  | _ => True

@[simp] theorem ended_value (code : String) (rank : Rank) : Ended (.value code rank) := trivial

@[simp] theorem ended_statement (code : String) : Ended (.statement code) ↔ Finished code := Iff.rfl

@[simp] theorem ended_ite (c : Prop) [Decidable c] (emission other : Emission) :
    Ended (if c then emission else other) ↔ (c → Ended emission) ∧ (¬c → Ended other) := by
  split <;> simp_all

/-! ### Calm emitters -/

section Requests

variable {α : Type} {goal : α → Prop}

@[simp] theorem calm_unknownOption (node : Node) (field : String) :
    (unknownOption node field).Calm goal := trivial

@[simp] theorem calm_option (node : Node) (field : String) {goal : String → Prop} :
    (option node field).Calm goal ↔ ∀ text, node.fieldText field = some text → goal text := by
  unfold option
  split
  · rename_i text htext
    simp [htext]
  · rename_i htext
    simp [htext]

@[simp] theorem calm_choose (node : Node) (field : String) (choice : Option α) :
    (choose node field choice).Calm goal ↔ ∀ answer, choice = some answer → goal answer := by
  cases choice <;> simp [choose]

@[simp] theorem calm_requireStd {goal : Unit → Prop} : requireStd.Calm goal ↔ goal () := Iff.rfl

@[simp] theorem calm_requireAllocator {goal : Unit → Prop} :
    requireAllocator.Calm goal ↔ goal () := Iff.rfl

@[simp] theorem calm_variableOf (node : Node) {goal : String → Prop} (h : ∀ word, goal word) :
    (variableOf node).Calm goal := by
  simp [variableOf, h]

@[simp] theorem calm_zigCache (code name : String)
    {goal : Cached → Prop} (h : ∀ cached, goal cached) :
    (cache code name).Calm goal :=
  calm_cache declareConst code name h

@[simp] theorem calm_cacheBound (code name : String)
    {goal : Cached → Prop} (h : ∀ cached, goal cached) :
    (cacheBound code name).Calm goal := by
  simp [cacheBound, h]

@[simp] theorem calm_itemsOr (slot : String) {goal : String → Prop} (h : ∀ code, goal code) :
    (itemsOr slot).Calm goal := by
  simp only [itemsOr, calm_bind, calm_askValue]
  intro code
  cases code with
  | some list => exact h _
  | none => exact h _

@[simp] theorem calm_listOr (slot : String) {goal : String → Prop} (h : ∀ code, goal code) :
    (listOr slot).Calm goal := by
  simp only [listOr, calm_bind, calm_askValue]
  intro code
  cases code with
  | some list => exact h _
  | none => simpa using h newList

end Requests

variable {config : Config}

/-- An emitter that asks for values and names only, at every node. -/
def Still (config : Config) (emitter : Emitter) : Prop :=
  ∀ node, (emitter.script config node).Calm Ended

theorem still_bindings : ∀ entry ∈ bindings, Still config entry.2 := by
  simp [bindings, Still, getVariable, setVariable, changeVariable]

theorem still_palette : ∀ entry ∈ palette, Still config entry.2 := by
  simp [palette, Still, pickColour, randomColour, mixColour, blendColours]

theorem still_sequences : ∀ entry ∈ sequences, Still config entry.2 := by
  simp [sequences, Still, emptyList, listOf, copyItems, repeatItem, listLength, listIsEmpty,
    sortList, splitOrJoin, reverseList]

theorem still_changeCase : Still config ⟨changeCase, false⟩ := by
  intro node
  simp only [changeCase, calm_bind, calm_option, calm_choose, calm_valueOr, calm_requireAllocator]
  intro name _ letterCase _ text
  cases letterCase <;> simp

theorem still_print : Still config ⟨print, false⟩ := by
  intro node
  simp only [print, calm_bind, calm_valueOr, calm_requireStd, calm_pure, ended_statement]
  exact fun message => finished_append _ ⟨" \x7d)".toList, ';', by decide, rfl⟩

theorem still_wordings : ∀ entry ∈ wordings, Still config entry.2 := by
  simp only [wordings, List.forall_mem_cons, still_changeCase, still_print]
  simp [Still, textLiteral, textLines, joinText, appendText, textLength, textIsEmpty, trimText,
    prompt, promptMessage, countText, replaceText, reverseText]

theorem still_number : Still config ⟨number, false⟩ := by
  intro node
  simp only [number]
  split <;> simp

theorem still_apply : Still config ⟨apply, false⟩ := by
  intro node
  simp only [apply, calm_bind, calm_option, calm_ite]
  refine fun name _ => ⟨by simp, fun _ => ?_⟩
  split
  · simp
  · simp only [libraryFunction, calm_bind, calm_requireStd, calm_ite]
    refine ⟨by simp, fun _ => ?_⟩
    split <;> simp

theorem still_testProperty : Still config ⟨testProperty, false⟩ := by
  intro node
  simp only [testProperty, calm_bind, calm_option]
  intro property _
  split <;> simp [divisible, prime]

theorem still_constrain : Still config ⟨constrain, false⟩ := by
  intro node
  simp only [constrain, calm_bind, calm_valueOr, calm_askValue]
  intro value low high
  cases high <;> simp

theorem still_arithmetic : ∀ entry ∈ arithmetic, Still config entry.2 := by
  simp only [arithmetic, List.forall_mem_cons, still_number, still_apply,
    still_testProperty, still_constrain]
  simp [Still, operate, power, constant, modulo, randomInt, randomFraction, angle]

theorem still_statistics : ∀ entry ∈ statistics, Still config entry.2 := by
  simp only [statistics, List.forall_mem_singleton]
  intro node
  simp only [aggregateList, calm_bind, calm_option, calm_choose, calm_ite, calm_requireAllocator,
    calm_requireStd, calm_askHelper]
  intro name _ aggregate _
  refine ⟨fun _ helper => calm_itemsOr "LIST" fun items => ?_, fun _ helper =>
    calm_itemsOr "LIST" fun items => ?_⟩
  · simp
  · simp

theorem calm_sliceInPlace (items : String) (start : SliceStart)
    (finish : SliceEnd) {goal : String → Prop} (h : ∀ code, goal code) :
    (sliceInPlace config items start finish).Calm goal := by
  cases start <;> cases finish <;> simp [sliceInPlace, sliceFrom, h]

theorem still_slices : ∀ entry ∈ slices, Still config entry.2 := by
  simp [slices, Still, subtext, sublist, sliceEnds, copyItems, calm_sliceInPlace, sliceThrough]

theorem still_letterAt : Still config ⟨letterAt, false⟩ := by
  intro node
  simp only [letterAt, calm_bind, calm_valueOr, calm_pure]
  intro text
  unfold letterCode
  split <;> simp [atStart, atEnd]

@[simp] theorem calm_randomIndex (list : String)
    {goal : String × String → Prop} (h : ∀ answer, goal answer) :
    (randomIndex list).Calm goal := by
  simp [randomIndex, h]

theorem calm_accessComputed (access : Access) (position : Position) (list : String) :
    (accessComputed config access position list).Calm Ended := by
  simp only [accessComputed, calm_ite]
  refine ⟨fun _ => ?_, fun _ => ?_⟩
  · rw [calm_bind]
    refine calm_zigCache list "tmp_list" fun cached => ?_
    rw [calm_bind]
    exact calm_randomIndex cached.expr fun answer => finished_append _ finished_call
  · cases access <;> simp [atEnd]

theorem calm_accessDirect (access : Access) (position : Position) (list : String) :
    (accessDirect config access position list).Calm Ended := by
  cases position <;> cases access <;> simp [accessDirect, accessAt, removal, atStart, atEnd]

theorem still_getItem : Still config ⟨getItem, false⟩ := by
  intro node
  simp [getItem, calm_accessComputed, calm_accessDirect]

@[simp] theorem finished_writeAt (insert : Bool) (list index value : String) :
    Finished (writeAt insert list index value) := by
  simp [writeAt]

theorem calm_writable (insert : Bool) (position : Position) (list : String) {goal : Cached → Prop}
    (h : ∀ cached, goal cached) : (writable insert position list).Calm goal := by
  cases position <;> simp [writable, h]

theorem calm_writeItem (insert : Bool) (position : Position) (list value : String) :
    (writeItem config insert position list value).Calm Finished := by
  cases position <;> simp [writeItem, atStart, atEnd]

/-- Setting an item is one finished statement, maybe behind the line that binds its list. -/
theorem calm_setItem (node : Node) {goal : Emission → Prop}
    (h : ∀ setup code, Finished code → goal (.statement (setup ++ code))) :
    (setItem config node).Calm goal := by
  simp only [setItem, calm_bind, calm_choose]
  intro insert _ position _
  refine calm_listOr "LIST" fun list => ?_
  rw [calm_valueOr]
  intro value
  refine calm_writable insert position list fun target => ?_
  exact (calm_writeItem insert position target.expr value).mono fun code hcode =>
    h target.setup code hcode

theorem still_setItem : Still config ⟨setItem, false⟩ := fun node =>
  calm_setItem node fun setup _ hcode => finished_append setup hcode

theorem still_positions : ∀ entry ∈ positions, Still config entry.2 := by
  simp only [positions, List.forall_mem_cons, still_letterAt, still_getItem, still_setItem]
  simp [Still, findText, findItem, foundPosition]

/-! ### Families that begin with another emitter -/

theorem still_choices : ∀ entry ∈ choices.tail, Still config entry.2 := by
  simp [choices, Still, compare, connect, negate, boolean, null, ternary]

theorem still_jump : Still config ⟨jump, true⟩ := by
  intro node
  simp only [jump, calm_bind, calm_option, calm_choose, calm_askLoop, calm_pure, ended_statement]
  intro name _ keyword hkeyword loop
  have hended : Finished keyword := by
    unfold jump? at hkeyword
    split at hkeyword
    · obtain rfl := Option.some.inj hkeyword
      exact ⟨"break".toList, ';', by decide, rfl⟩
    · obtain rfl := Option.some.inj hkeyword
      exact ⟨"continue".toList, ';', by decide, rfl⟩
    · simp at hkeyword
  exact finished_append _ hended

theorem still_devices : ∀ entry ∈ devices.tail, Still config entry.2 := by
  simp [devices, Still, messageField, readSensor, transmit, composeMessage]

theorem still_returnIf : Still config ⟨returnIf, true⟩ := by
  intro node
  simp only [returnIf, calm_bind, calm_valueOr, calm_ite, calm_pure, ended_statement]
  intro condition
  constructor
  · intro _ value
    exact finished_braces _ _ _
  · intro _
    exact finished_braces _ _ _

theorem still_routines : ∀ entry ∈ routines.tail, Still config entry.2 := by
  simp only [routines, List.tail_cons, List.forall_mem_cons, still_returnIf]
  simp [Still, callForValue, callForEffect, callCode]

/-! ### Emitters of statements -/

/-- An emission that is no value. -/
def Wordless : Emission → Prop
  | .value _ _ => False
  | _ => True

/-- An emitter that gives no values, whatever it is answered. -/
def Mute (config : Config) (emitter : Emitter) : Prop :=
  ∀ node, (emitter.script config node).Meets .free Wordless

theorem Mute.meets {emitter : Emitter} (h : Mute config emitter) (node : Node)
    {terms : Terms} {goal : Emission → Prop} (hstatement : ∀ code, goal (.statement code))
    (hnothing : goal .nothing) (hhelper : ∀ template, terms.helper template)
    (hrequire : ∀ text, terms.require text) (hdefine : ∀ text, terms.define text) :
    (emitter.script config node).Meets terms goal := by
  refine (h node).of_free (fun emission hwordless => ?_) hhelper hrequire hdefine
  cases emission with
  | value code rank => exact hwordless.elim
  | statement code => exact hstatement code
  | nothing => exact hnothing

theorem mute_conditional : Mute config ⟨conditional, true⟩ := by
  refine fun node => meets_free_bind fun arms => ?_
  split
  · exact meets_free_bind fun branch => trivial
  · exact trivial

theorem mute_repeatLoop : Mute config ⟨repeatLoop, false⟩ :=
  fun _ => meets_free_bind fun _times => meets_free_bind fun _body =>
    meets_free_bind fun _counter =>
    meets_free_bind fun _bound => trivial

theorem mute_whileLoop : Mute config ⟨whileLoop, false⟩ :=
  fun _ => meets_free_bind fun _negated => meets_free_bind fun _condition =>
    meets_free_bind fun _body => trivial

theorem mute_countLoop : Mute config ⟨countLoop, false⟩ := by
  refine fun node => meets_free_bind fun name => meets_free_bind fun start =>
    meets_free_bind fun finish =>
    meets_free_bind fun step => meets_free_bind fun body => ?_
  split
  · exact trivial
  · exact meets_free_bind fun start => meets_free_bind fun finish =>
      meets_free_bind fun increment => trivial

theorem mute_eachLoop : Mute config ⟨eachLoop, false⟩ :=
  fun _ => meets_free_bind fun _name => meets_free_bind fun _items => meets_free_bind fun _body =>
    meets_free_bind fun _capture => trivial

theorem mute_jump : Mute config ⟨jump, true⟩ :=
  fun _ => meets_free_bind fun _name => meets_free_bind fun _keyword =>
    meets_free_bind fun _loop => trivial

theorem mute_iterations : ∀ entry ∈ iterations, Mute config entry.2 := by
  simp only [iterations, List.forall_mem_cons]
  exact ⟨mute_repeatLoop, mute_whileLoop, mute_countLoop, mute_eachLoop, mute_jump,
    List.forall_mem_nil _⟩

theorem mute_every : Mute config ⟨every, false⟩ :=
  fun _ => meets_free_bind fun _body => trivial

theorem mute_defineProcedure : Mute config ⟨defineProcedure, true⟩ :=
  fun _ => meets_free_bind fun _option => meets_free_bind fun _name =>
    meets_free_bind fun _branch =>
    meets_free_bind fun _result => meets_free_bind fun _words => meets_free_bind fun _ => trivial

end BlockSynth.Zig
