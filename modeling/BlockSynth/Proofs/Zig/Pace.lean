import BlockSynth.Proofs.Graph.Silenced
import BlockSynth.Proofs.Zig.Contract
import BlockSynth.Proofs.Zig.Still

/-! # Zig emitters keep pace

No emitter looks at a comment, except that a procedure is defined with its comments in front of it.
So a node is emitted like the same node without comments, and where the codes of statement slots
have remarks strewn into them, the code of the node has the same remarks strewn into it.
-/
namespace BlockSynth.Zig

open Chars Script

/-- Code with remarks strewn into it, beside the code without them. Every statement
ends its last line, on which there is something, so remarks may stand behind it; a
definition stands between blank lines. -/
def commented : Manner where
  chain code bare := Strewn true true code.toList bare.toList ∧ (bare = "" → code = "")
  statement code bare := Strewn true true code.toList bare.toList ∧ bare ≠ ""
  definition text bare := Strewn false false (text.toList ++ ['\n']) (bare.toList ++ ['\n'])

theorem strewn_texts {settled settles settles' : Bool} {code bare more plain : String}
    (h : Strewn settled settles code.toList bare.toList)
    (hmore : Strewn settles settles' more.toList plain.toList) :
    Strewn settled settles' (code ++ more).toList (bare ++ plain).toList := by
  rw [String.toList_append, String.toList_append]
  exact h.append hmore

theorem Finished.statement {code : String} (h : Finished code) : commented.statement code code :=
  ⟨h.strewn true, h.ne_empty⟩

/-! ### Blocks -/

/-- Code that goes together, and the same text behind it. -/
def Ahead (code bare : String) : Prop :=
  ∃ front plain rest, Strewn true true front plain ∧ code.toList = front ++ rest ∧
    bare.toList = plain ++ rest

/-- The same up to a closing brace. -/
def Closes (code bare : String) : Prop :=
  ∃ front plain, Ahead front plain ∧ code = front ++ "\x7d" ∧ bare = plain ++ "\x7d"

theorem ahead_text (text : String) : Ahead text text :=
  ⟨[], [], text.toList, .nil fun _ => rfl, rfl, rfl⟩

theorem Ahead.append {code bare : String} (h : Ahead code bare) (text : String) :
    Ahead (code ++ text) (bare ++ text) := by
  obtain ⟨front, plain, rest, hstrewn, hcode, hbare⟩ := h
  refine ⟨front, plain, rest ++ text.toList, hstrewn, ?_, ?_⟩
  · rw [String.toList_append, hcode, List.append_assoc]
  · rw [String.toList_append, hbare, List.append_assoc]

theorem Closes.ahead {code bare : String} (h : Closes code bare) : Ahead code bare := by
  obtain ⟨front, plain, hahead, rfl, rfl⟩ := h
  exact hahead.append _

/-- A block goes together if what is between its braces does. -/
theorem Ahead.braces {code bare body plain : String} (h : Ahead code bare) (head : String)
    (hbody : Strewn true true body.toList plain.toList) :
    Closes (code ++ braces head body) (bare ++ braces head plain) := by
  obtain ⟨front, front', rest, hstrewn, hcode, hbare⟩ := h
  have hopen :=
    strewn_solid true (rest ++ head.toList ++ [' ']) (show isBlank '\x7b' = false by decide)
  have hwhole := (hstrewn.append hopen).append hbody
  refine ⟨code ++ (head ++ " \x7b\n" ++ body), bare ++ (head ++ " \x7b\n" ++ plain),
    ⟨_, _, [], hwhole, ?_, ?_⟩, ?_, ?_⟩
  · simp [hcode]
  · simp [hbare]
  · rw [String.append_assoc]
    rfl
  · rw [String.append_assoc]
    rfl

/-- A block with a line break behind it is a statement. -/
theorem Closes.line {code bare : String} (h : Closes code bare) :
    commented.statement (code ++ "\n") (bare ++ "\n") := by
  obtain ⟨code, bare, ⟨front, plain, rest, hstrewn, hcode, hbare⟩, rfl, rfl⟩ := h
  have hend := strewn_solid true rest (show isBlank '\x7d' = false by decide)
  have hwhole := hstrewn.append hend
  constructor
  · simpa [hcode, hbare] using hwhole
  · intro hnil
    simpa using congrArg String.toList hnil

/-- A statement that is a block behind some lines. -/
theorem statement_braces (lead head : String) {body plain : String}
    (hbody : Strewn true true body.toList plain.toList) :
    commented.statement (lead ++ braces head body ++ "\n") (lead ++ braces head plain ++ "\n") :=
  ((ahead_text lead).braces head hbody).line

theorem statement_block (head : String) {body plain : String}
    (hbody : Strewn true true body.toList plain.toList) :
    commented.statement (braces head body ++ "\n") (braces head plain ++ "\n") := by
  simpa using statement_braces "" head hbody

/-! ### Loops -/

variable {config : Config}

/-- The emitter keeps pace with itself. -/
def SelfPaced (config : Config) (emitter : Emitter) : Prop :=
  ∀ node, (emitter.script config node).Paced commented commented.Emits (emitter.script config node)

theorem Still.selfPaced {emitter : Emitter} (h : Still config emitter) :
    SelfPaced config emitter := by
  intro node
  refine (h node).paced fun emission hended => ?_
  cases emission with
  | value code rank => exact ⟨rfl, rfl⟩
  | statement code => exact Finished.statement hended
  | nothing => exact trivial

theorem selfPaced_whileLoop : SelfPaced config ⟨whileLoop, false⟩ := by
  intro node
  refine Calm.bind (by simp) fun negated => Calm.bind (by simp) fun condition => ?_
  refine (paced_askLoopBody "DO").bind fun body plain hbody => .done ?_
  exact statement_block _ hbody.1

theorem selfPaced_repeatLoop : SelfPaced config ⟨repeatLoop, false⟩ := by
  intro node
  have htimes : (repeatTimes node).Calm fun _ => True := by simp [repeatTimes]
  refine htimes.bind fun times => (paced_askLoopBody "DO").bind fun body plain hbody => ?_
  refine Calm.bind (by simp) fun counter => Calm.bind (by simp) fun bound => .done ?_
  exact statement_braces _ _ hbody.1

theorem selfPaced_countLoop : SelfPaced config ⟨countLoop, false⟩ := by
  intro node
  refine Calm.bind (by simp) fun name => Calm.bind (by simp) fun start =>
    Calm.bind (by simp) fun finish => ?_
  refine Calm.bind (by simp) fun step => (paced_askLoopBody "DO").bind fun body plain hbody => ?_
  split
  · exact .done (statement_braces _ _ hbody.1)
  · refine Calm.bind (by simp) fun first => Calm.bind (by simp) fun last =>
      Calm.bind (by simp) fun increment => ?_
    exact .done (statement_braces _ _ hbody.1)

theorem selfPaced_eachLoop : SelfPaced config ⟨eachLoop, false⟩ := by
  intro node
  refine Calm.bind (by simp) fun name => Calm.bind (by simp) fun items => ?_
  refine (paced_askLoopBody "DO").bind fun body plain hbody =>
    Calm.bind (by simp) fun capture => .done ?_
  have htake : Finished s!"{config.indentUnit}{name} = {capture};\n" := by simp
  exact statement_block _ (strewn_texts (htake.strewn true) hbody.1)

theorem selfPaced_iterations : ∀ entry ∈ iterations, SelfPaced config entry.2 := by
  simp [iterations, selfPaced_whileLoop, selfPaced_repeatLoop, selfPaced_countLoop,
    selfPaced_eachLoop, still_jump.selfPaced]

theorem selfPaced_every : SelfPaced config ⟨every, false⟩ := by
  intro node
  refine (paced_askLoopBody "STMTS").bind fun body plain hbody => .done ?_
  apply statement_braces
  refine strewn_texts hbody.1 (Finished.strewn ?_ true)
  simp

theorem selfPaced_devices : ∀ entry ∈ devices, SelfPaced config entry.2 :=
  List.forall_mem_cons.mpr ⟨selfPaced_every, fun entry hentry =>
    (still_devices entry hentry).selfPaced⟩

/-! ### Conditionals -/

/-- The arms of a conditional, one after the other. -/
def ArmsAlike : List String → List String → Prop :=
  List.Forall₂ fun arm arm' => ∃ head body plain, Strewn true true body.toList plain.toList ∧
    arm = braces head body ∧ arm' = braces head plain

theorem paced_conditionalArms (numbers : List Nat) :
    (conditionalArms "" numbers).Paced commented
      (fun arms arms' => ArmsAlike arms arms' ∧ arms.length = numbers.length)
      (conditionalArms "" numbers) := by
  induction numbers with
  | nil => exact .done ⟨.nil, rfl⟩
  | cons n rest ih =>
    refine Calm.bind (by simp) fun condition => ?_
    refine (paced_askStatements _).bind fun branch plain hbranch =>
      ih.bind fun arms arms' harms => .done ?_
    refine ⟨.cons ⟨_, _, _, ?_, rfl, rfl⟩ harms.1, congrArg (· + 1) harms.2⟩
    simpa using hbranch.1

theorem Ahead.join {code bare : String} (h : Ahead code bare)
    {arms arms' : List String} (harms : ArmsAlike arms arms') (hne : arms ≠ []) :
    Closes (code ++ Text.join " else " arms) (bare ++ Text.join " else " arms') := by
  -- What has been joined so far is text in front of the next arm.
  induction harms generalizing code bare with
  | nil => exact absurd rfl hne
  | @cons arm arm' rest rest' harm hrest ih =>
    obtain ⟨head, body, plain, hbody, rfl, rfl⟩ := harm
    have hclosed := h.braces head hbody
    cases hrest with
    | nil => exact hclosed
    | cons hnext hmore =>
      have hjoined := ih (hclosed.ahead.append " else ") (List.cons_ne_nil _ _)
      simpa [Text.join, String.append_assoc] using hjoined

theorem selfPaced_conditional (h : Uninjected config) : SelfPaced config ⟨conditional, true⟩ := by
  intro node
  have hlead : Text.prefixLines config.indentUnit (config.after quotes node.id) = "" := by
    rw [h.after_eq]
    rfl
  show (conditional config node).Paced commented commented.Emits (conditional config node)
  unfold conditional
  simp only [hlead, h.before_eq, String.empty_append]
  refine (paced_conditionalArms _).bind fun arms arms' harms => ?_
  have hne : arms ≠ [] := by
    rintro rfl
    simp at harms
  have hclosed : Closes (Text.join " else " arms) (Text.join " else " arms') := by
    simpa using (ahead_text "").join harms.1 hne
  -- An `else` branch is one more block behind the arms.
  split
  · refine (paced_askStatements "ELSE").bind fun branch plain hbranch => .done ?_
    have hother := (hclosed.ahead.append " ").braces "else" hbranch.1
    rw [String.append_assoc, String.append_assoc] at hother
    exact hother.line
  · refine .done ?_
    show commented.statement (Text.join " else " arms ++ "" ++ "\n")
      (Text.join " else " arms' ++ "" ++ "\n")
    rw [String.append_empty, String.append_empty]
    exact hclosed.line

theorem selfPaced_choices (h : Uninjected config) : ∀ entry ∈ choices, SelfPaced config entry.2 :=
  List.forall_mem_cons.mpr ⟨selfPaced_conditional h, fun entry hentry =>
    (still_choices entry hentry).selfPaced⟩

/-! ### Comments are not seen -/

section Silenced

variable (node : Node)

@[simp] theorem unknownOption_silenced {α : Type} (field : String) :
    (unknownOption node.silenced field : Script α) = unknownOption node field := by
  simp [unknownOption]

@[simp] theorem option_silenced (field : String) :
    option node.silenced field = option node field := by
  simp [option]

@[simp] theorem optionOr_silenced (field default : String) :
    optionOr node.silenced field default = optionOr node field default := by
  simp [optionOr]

@[simp] theorem choose_silenced {α : Type} (field : String) (choice : Option α) :
    choose node.silenced field choice = choose node field choice := by
  simp [choose]

@[simp] theorem itemSlots_silenced : itemSlots node.silenced = itemSlots node := by
  simp [itemSlots]

@[simp] theorem variableOf_silenced : variableOf node.silenced = variableOf node := by
  simp [variableOf]

@[simp] theorem positionOf_silenced : positionOf node.silenced = positionOf node := by
  simp [positionOf]

@[simp] theorem producesText_silenced : producesText node.silenced = producesText node := by
  simp [producesText]

end Silenced

/-- The emitter does not see the comments of a node. -/
def Blind (config : Config) (emitter : Emitter) : Prop :=
  ∀ node : Node, emitter.script config node.silenced = emitter.script config node

theorem blind_choices : ∀ entry ∈ choices, Blind config entry.2 := by
  simp [choices, Blind, conditional, hasElse, compare, connect, negate, boolean, null, ternary]

theorem blind_iterations : ∀ entry ∈ iterations, Blind config entry.2 := by
  simp [iterations, Blind, repeatLoop, repeatTimes, whileLoop, countLoop, eachLoop, jump]

theorem blind_arithmetic : ∀ entry ∈ arithmetic, Blind config entry.2 := by
  simp [arithmetic, Blind, number, operate, apply, libraryFunction, constant, testProperty, modulo,
    constrain, randomInt, randomFraction, angle]

theorem blind_statistics : ∀ entry ∈ statistics, Blind config entry.2 := by
  simp [statistics, Blind, aggregateList]

theorem blind_wordings : ∀ entry ∈ wordings, Blind config entry.2 := by
  simp [wordings, Blind, textLiteral, textLines, joinText,
    appendText, textLength, textIsEmpty, changeCase, trimText,
    print, prompt, promptMessage, countText, replaceText, reverseText, Option.all_map]

theorem blind_positions : ∀ entry ∈ positions, Blind config entry.2 := by
  simp [positions, Blind, findText, findItem, letterAt, letterCode, getItem, setItem]

theorem blind_slices : ∀ entry ∈ slices, Blind config entry.2 := by
  simp [slices, Blind, subtext, sublist, sliceEnds]

theorem blind_sequences : ∀ entry ∈ sequences, Blind config entry.2 := by
  simp [sequences, Blind, emptyList, listOf, repeatItem, listLength, listIsEmpty, sortList,
    splitOrJoin, reverseList]

theorem blind_palette : ∀ entry ∈ palette, Blind config entry.2 := by
  simp [palette, Blind, pickColour, randomColour, mixColour, blendColours]

theorem blind_bindings : ∀ entry ∈ bindings, Blind config entry.2 := by
  simp [bindings, Blind, getVariable, setVariable, changeVariable]

theorem blind_devices : ∀ entry ∈ devices, Blind config entry.2 := by
  simp [devices, Blind, every, messageField, readSensor, transmit, composeMessage]

theorem blind_routines : ∀ entry ∈ routines.tail, Blind config entry.2 := by
  simp [routines, Blind, callForValue, callForEffect, callCode, returnIf]

/-! ### Remarks -/

/-- Comments are written as remarks. -/
theorem remarks_commentLines (comments : List String) :
    Remarks (Text.prefixLines commentMark (String.join (comments.map (· ++ "\n")))).toList := by
  have hremark : ∀ line, isRemark (commentMark.toList ++ line) = true := by
    intro line
    simp [isRemark, commentMark, trimStart, isBlank]
  have hlines : String.join (comments.map (· ++ "\n")) = "" ∨
      ∃ text, (String.join (comments.map (· ++ "\n"))).toList = text ++ ['\n'] := by
    induction comments with
    | nil => exact .inl rfl
    | cons comment rest ih =>
      refine .inr ?_
      rw [List.map_cons, String.join_cons]
      rcases ih with hnil | ⟨text, htext⟩
      · exact ⟨comment.toList, by simp [hnil]⟩
      · exact ⟨comment.toList ++ '\n' :: text, by simp [htext]⟩
  rw [Text.prefixLines, String.toList_ofList]
  rcases hlines with hnil | ⟨text, htext⟩
  · rw [hnil]
    exact remarks_nil
  · rw [htext]
    exact remarks_prefixLines (by decide) hremark text

theorem remarks_comments (node : Node) : Remarks (node.comments commentMark).toList := by
  unfold Node.comments
  rw [String.toList_append]
  refine (remarks_commentLines node.remark.toList).append ?_
  induction node.inputs with
  | nil => exact remarks_nil
  | cons slot rest ih =>
    rw [List.map_cons, String.join_cons, String.toList_append]
    exact (remarks_commentLines (slot.2.nodes.filterMap Node.remark)).append ih

/-! ### Procedures -/

/-- The emitter keeps pace with itself where the comments are taken away. -/
def KeepsPace (config : Config) (emitter : Emitter) : Prop :=
  ∀ node : Node, (emitter.script config node).Paced commented commented.Emits
    (emitter.script config node.silenced)

theorem SelfPaced.keepsPace {emitter : Emitter}
    (h : SelfPaced config emitter) (hblind : Blind config emitter) :
    KeepsPace config emitter := by
  intro node
  rw [hblind node]
  exact h node

/-- A definition that begins with a word may have comments in front of it. -/
theorem definition_braces {comments head : String} (hcomments : Remarks comments.toList) {c : Char}
    (hhead : head.toList.head? = some c) (hc : isBlank c = false) {body plain : String}
    (hbody : Strewn true true body.toList plain.toList) :
    commented.definition (comments ++ braces head body) (braces head plain) := by
  have hopen := strewn_solid false (head.toList ++ [' ']) (show isBlank '\x7b' = false by decide)
  have hclose := strewn_solid true [] (show isBlank '\x7d' = false by decide)
  have hspelled : ∀ body, (braces head body).toList =
      head.toList ++ [' ', '\x7b', '\n'] ++ body.toList ++ ['\x7d'] := by
    intro body
    show (head ++ " \x7b\n" ++ body ++ "\x7d").toList = _
    simp
  have hblock : Strewn false false ((braces head body).toList ++ ['\n'])
      ((braces head plain).toList ++ ['\n']) := by
    rw [hspelled, hspelled]
    simpa using ((hopen.append hbody).append hclose).unsettle
  have hsolid : OpensSolid ((braces head plain).toList ++ ['\n']) := by
    obtain ⟨rest, hrest⟩ := List.head?_eq_some_iff.mp hhead
    rw [hspelled, hrest]
    exact opensSolid_cons hc (by simp)
  show Strewn false false ((comments ++ braces head body).toList ++ ['\n'])
    ((braces head plain).toList ++ ['\n'])
  rw [String.toList_append, List.append_assoc]
  exact hblock.remarks hcomments (.inr hsolid)

theorem strewn_closing (config : Config) (branch plain : String) (result : Option String) :
    Strewn true true (closing config "" branch result).toList
      (closing config "" plain result).toList := by
  cases result with
  | none => exact .nil fun _ => rfl
  | some value =>
    have hended : Finished s!"{config.indentUnit}return {value};\n" := by simp
    simpa [closing] using hended.strewn true

theorem keepsPace_defineProcedure (h : Uninjected config) :
    KeepsPace config ⟨defineProcedure, true⟩ := by
  intro node
  show (defineProcedure config node).Paced commented commented.Emits
    (defineProcedure config node.silenced)
  unfold defineProcedure
  simp only [option_silenced, Node.silenced_id, Node.silenced_mutation, Node.comments_silenced,
    h.before_eq, h.after_eq, h.trap_eq, String.empty_append, prefixLines_empty]
  refine Calm.bind (by simp) fun field => Calm.bind (by simp) fun name => ?_
  refine (paced_askStatements "STACK").bind fun branch plain hbranch => ?_
  refine Calm.bind (by simp) fun result => Calm.bind (by simp) fun words => ?_
  have hword : (toString "fn ").toList.head? = some 'f' := rfl
  refine .define name
    (definition_braces (remarks_comments node) ?_ (show isBlank 'f' = false by decide) ?_)
    (.done trivial)
  · simp [hword]
  · exact strewn_texts hbranch.1 (strewn_closing config branch plain result)

/-! ### The catalog -/

theorem keepsPace_of_still {entries : List (String × Emitter)}
    (h : ∀ entry ∈ entries, Still config entry.2)
    (hblind : ∀ entry ∈ entries, Blind config entry.2) :
    ∀ entry ∈ entries, KeepsPace config entry.2 :=
  fun entry hentry => (h entry hentry).selfPaced.keepsPace (hblind entry hentry)

theorem keepsPace_routines (h : Uninjected config) : ∀ entry ∈ routines, KeepsPace config entry.2 :=
  List.forall_mem_cons.mpr ⟨keepsPace_defineProcedure h,
    keepsPace_of_still still_routines blind_routines⟩

theorem keepsPace_catalog (h : Uninjected config) : catalog.All (KeepsPace config) := by
  have hempty : Catalog.All (KeepsPace config) {} := List.forall_mem_nil _
  have hchoices : ∀ entry ∈ choices, KeepsPace config entry.2 :=
    fun entry hentry => (selfPaced_choices h entry hentry).keepsPace (blind_choices entry hentry)
  have hiterations : ∀ entry ∈ iterations, KeepsPace config entry.2 :=
    fun entry hentry =>
      (selfPaced_iterations entry hentry).keepsPace (blind_iterations entry hentry)
  have hdevices : ∀ entry ∈ devices, KeepsPace config entry.2 :=
    fun entry hentry => (selfPaced_devices entry hentry).keepsPace (blind_devices entry hentry)
  refine (hempty.registerAll ?_).withAliases aliases
  simp only [emitters, List.forall_mem_append]
  exact ⟨⟨⟨⟨⟨⟨⟨⟨⟨⟨⟨hchoices, hiterations⟩, keepsPace_of_still still_arithmetic blind_arithmetic⟩,
    keepsPace_of_still still_statistics blind_statistics⟩,
    keepsPace_of_still still_wordings blind_wordings⟩,
    keepsPace_of_still still_positions blind_positions⟩,
    keepsPace_of_still still_slices blind_slices⟩,
    keepsPace_of_still still_sequences blind_sequences⟩,
    keepsPace_of_still still_palette blind_palette⟩,
    keepsPace_of_still still_bindings blind_bindings⟩, keepsPace_routines h⟩, hdevices⟩

end BlockSynth.Zig
