import BlockSynth.Proofs.Zig.Cumulative
import BlockSynth.Proofs.Zig.Sound.List
import BlockSynth.Zig.Binding
import BlockSynth.Zig.Choice
import BlockSynth.Zig.Device
import BlockSynth.Zig.Iteration
import BlockSynth.Zig.Routine

/-! # Choices, loops and procedures keep the contract

Where nothing is injected, a statement is made of closed branches between braces of
its own, and of operands between parentheses.
-/
namespace BlockSynth.Zig

variable {plain : Prop} {own : String → Prop} {config : Config} {fine : String → Prop}

/-! ### Choices -/

theorem fulfils_conditionalArms {lead : String}
    (hlead : Closing plain own lead) (numbers : List Nat) :
    Fulfils plain own config (fun arms => ∀ arm ∈ arms, Closing plain own arm)
      (conditionalArms lead numbers) := by
  induction numbers with
  | nil => exact Fulfils.done (List.forall_mem_nil _)
  | cons n rest ih =>
    refine (fulfils_valueOr s!"IF{n}" .none atom_false).bind fun condition hcondition => ?_
    refine (fulfils_askStatements s!"DO{n}").bind fun branch hbranch => ?_
    refine ih.bind fun arms harms => Fulfils.pure (List.forall_mem_cons.mpr ⟨fun hp => ?_, harms⟩)
    exact contained_braces s!"if ({condition})" ((hlead hp).append (hbranch hp)) (by decide)

theorem contained_join_else {arms : List String} (h : ∀ arm ∈ arms, Contained own arm) :
    Contained own (Text.join " else " arms) := by
  induction arms with
  | nil => exact .empty
  | cons arm rest ih =>
    rw [List.forall_mem_cons] at h
    cases rest with
    | nil => exact h.1
    | cons next more =>
      exact (h.1.append (contained_of_spells " else " (by decide))).append (ih h.2)

theorem contained_newline : Contained own "\n" :=
  contained_of_spells "\n" (by decide)

/-- What is injected after a conditional begins every branch. -/
theorem Fair.contained_lead (h : Fair plain config) (id : String) (hp : plain) :
    Contained own (Text.prefixLines config.indentUnit (config.after quotes id)) :=
  (h.contained_after hp id).indent h.indent

theorem fulfils_conditional (h : Fair plain config) (node : Node) :
    Fulfils plain own config (Sound (Closing plain own)) (conditional config node) := by
  refine (fulfils_conditionalArms (h.contained_lead node.id) _).bind fun arms harms => ?_
  have hfinish : ∀ otherwise : String, Closing plain own otherwise →
      Fulfils plain own config (Sound (Closing plain own)) (Pure.pure (.statement
        (config.before quotes node.id ++ Text.join " else " arms ++ otherwise ++ "\n"))) := by
    refine fun otherwise hotherwise => Fulfils.pure fun hp => ?_
    have hjoined := contained_join_else fun arm harm => harms arm harm hp
    exact (((h.contained_before hp node.id).append hjoined).append (hotherwise hp)).append
      contained_newline
  split
  · refine (fulfils_askStatements "ELSE").bind fun branch hbranch => hfinish _ fun hp => ?_
    have helse :=
      contained_braces "else" ((h.contained_lead node.id hp).append (hbranch hp)) (by decide)
    exact (contained_of_spells " " (by decide)).append helse
  · exact hfinish "" fun _ => .empty

theorem operand_comparison {name operator a b : String} {rank : Rank}
    (h : comparison? name = some (operator, rank)) [Spells a [.operand .relational]]
    [Spells b [.operand .relational]] : Operand rank (s!"{a} {operator} {b}").toList := by
  unfold comparison? at h
  split at h
  all_goals simp only [Option.some.injEq, Prod.mk.injEq, reduceCtorEq] at h
  all_goals obtain ⟨rfl, rfl⟩ := h
  all_goals exact operand_of_spells _ (by decide)

theorem fulfils_compare (node : Node) :
    Fulfils plain own config (Sound fine) (compare config node) := by
  refine (fulfils_option node "OP").bind fun name _ => ?_
  refine (fulfils_choose node "OP" (comparison? name)).bind fun (operator, rank) hoperator => ?_
  refine (fulfils_valueOr "A" .relational atom_zero).bind fun a ha => ?_
  refine (fulfils_valueOr "B" .relational atom_zero).bind fun b hb => Fulfils.pure ?_
  exact operand_comparison hoperator

/-- What a missing operand becomes is an atom. -/
theorem spells_getD {code : Option String} {rank : Rank}
    (h : ∀ text ∈ code, Spells text [.operand rank]) {missing : String}
    (hmissing : Atom missing.toList) : Spells (code.getD missing) [.operand rank] := by
  cases code with
  | none => exact hmissing.spells rank
  | some text => exact h text rfl

theorem operand_connective {name a b : String} {c : Connective} (h : connective? name = some c)
    [Spells a [.operand c.rank]] [Spells b [.operand c.rank]] :
    Operand c.rank (a ++ " " ++ c.operator ++ " " ++ b).toList := by
  unfold connective? at h
  split at h
  all_goals simp only [Option.some.injEq, reduceCtorEq] at h
  all_goals subst h
  all_goals exact operand_of_spells _ (by decide)

theorem atom_identity {name : String} {c : Connective} (h : connective? name = some c) :
    Atom c.identity.toList := by
  unfold connective? at h
  split at h
  all_goals simp only [Option.some.injEq, reduceCtorEq] at h
  all_goals subst h
  all_goals exact operand_of_spells _ (by decide)

theorem fulfils_connect (node : Node) :
    Fulfils plain own config (Sound fine) (connect config node) := by
  refine (fulfils_option node "OP").bind fun name _ => ?_
  refine (fulfils_choose node "OP" (connective? name)).bind fun c hc => ?_
  refine (fulfils_askValue "A" c.rank).bind fun a ha => ?_
  refine (fulfils_askValue "B" c.rank).bind fun b hb => Fulfils.pure ?_
  have hmissing : Atom (if a.isNone && b.isNone then "false" else c.identity).toList := by
    split
    · exact atom_false
    · exact atom_identity hc
  have hleft := spells_getD ha hmissing
  have hright := spells_getD hb hmissing
  exact operand_connective hc

theorem fulfils_negate (node : Node) :
    Fulfils plain own config (Sound fine) (negate config node) := by
  refine (fulfils_valueOr "BOOL" .unaryPrefix atom_true).bind fun operand hoperand =>
    Fulfils.pure ?_
  exact operand_of_spells _ (by decide)

theorem fulfils_boolean (node : Node) :
    Fulfils plain own config (Sound fine) (boolean config node) := by
  refine (fulfils_choose node "BOOL" (node.fieldBool "BOOL")).bind fun value _ => Fulfils.pure ?_
  cases value with
  | false => exact atom_false
  | true => exact atom_true

theorem fulfils_null (node : Node) : Fulfils plain own config (Sound fine) (null config node) :=
  Fulfils.done atom_null

theorem fulfils_ternary (node : Node) :
    Fulfils plain own config (Sound fine) (ternary config node) := by
  refine (fulfils_valueOr "IF" .none atom_false).bind fun condition hcondition => ?_
  refine (fulfils_valueOr "THEN" .conditional atom_null).bind fun consequence hconsequence => ?_
  refine (fulfils_valueOr "ELSE" .conditional atom_null).bind fun otherwise hotherwise =>
    Fulfils.pure ?_
  exact operand_of_spells _ (by decide)

/-! ### Loops -/

theorem Cumulative.cacheBound (hfine : Cumulative own fine) (code : String) {rank : Rank}
    [hcode : Spells code [.operand rank]] (name : String) :
    Fulfils plain own config (fun cached => Spells cached.expr [.operand rank] ∧ fine cached.setup)
      (Zig.cacheBound code name) := by
  unfold Zig.cacheBound
  split
  · exact Fulfils.done ⟨hcode, hfine.empty⟩
  · exact hfine.cache code name

theorem fulfils_repeatTimes (node : Node) :
    Fulfils plain own config (fun times =>
      Spells times [.operand .relational]) (repeatTimes node) := by
  unfold repeatTimes
  split
  · exact Fulfils.done (spells_iff.mpr (Operand.mono (operand_codeText _) (by decide)))
  · exact fulfils_valueOr "TIMES" .relational atom_zero

theorem fulfils_repeatLoop (node : Node) :
    Fulfils plain own config (Sound (Closing plain own)) (repeatLoop config node) := by
  refine (fulfils_repeatTimes node).bind fun times htimes => ?_
  refine (fulfils_askLoopBody "DO").bind fun body hbody => ?_
  refine (fulfils_freshName "count").bind fun counter hcounter => ?_
  refine (cumulative_contained.cacheBound times "repeat_end").bind fun bound hbound =>
    Fulfils.pure fun hp => ?_
  obtain ⟨hexpr, hsetup⟩ := hbound
  have hword := hcounter.1.spells
  have hzero := atom_zero.spells .none
  have hdeclare : Contained own s!"var {counter}: f32 = 0;\n" := by
    simpa [toString, String.append_assoc] using contained_declareVar hcounter.1 hcounter.2 "0"
  exact ((hsetup.append hdeclare).append (contained_braces _ (hbody hp) (by decide))).append
    contained_newline

theorem fulfils_whileLoop (node : Node) :
    Fulfils plain own config (Sound (Closing plain own)) (whileLoop config node) := by
  refine (fulfils_choose node "MODE" _).bind fun negated _ => ?_
  refine (fulfils_valueOr "BOOL" _ atom_false).bind fun condition hcondition => ?_
  refine (fulfils_askLoopBody "DO").bind fun body hbody => Fulfils.pure fun hp => ?_
  refine Contained.append ?_ contained_newline
  cases negated with
  | false =>
    have hloose : Spells condition [.operand .none] := hcondition
    exact contained_braces s!"while ({condition})" (hbody hp) (by decide)
  | true =>
    have htight : Spells condition [.operand .unaryPrefix] := hcondition
    exact contained_braces ("while (" ++ ("!" ++ condition) ++ ")") (hbody hp) (by decide)

theorem contained_literalCount (name start finish : String) (first last step : Binary64)
    {body : String} [Spells name [.operand .atomic]] [Spells start [.operand .assignment]]
    [Spells finish [.operand .assignment]] (hbody : Contained own body) :
    Contained own (literalCount name start finish first last step body) := by
  have hincrement : Spells step.abs.codeText [.operand .atomic] :=
    spells_iff.mpr (atom_codeText_abs step)
  have hassign : Contained own s!"{name} = {start};\n" := contained_of_spells _ (by decide)
  unfold literalCount
  cases first.le last with
  | false =>
    simp only [Bool.false_eq_true, if_false]
    exact (hassign.append (contained_braces _ hbody (by decide))).append contained_newline
  | true =>
    simp only [if_true]
    exact (hassign.append (contained_braces _ hbody (by decide))).append contained_newline

theorem spells_stepSize (step : String) [Spells step [.operand .assignment]] :
    Spells (match literal? step with
      | some number => number.abs.codeText
      | none => s!"@abs({step})") [.operand .unaryPostfix] := by
  split
  · exact spells_iff.mpr (Atom.operand (atom_codeText_abs _) _)
  · exact spells_iff.mpr (operand_of_spells _ (by decide))

theorem contained_computedCount (h : Fair plain config) {name increment : String}
    (start finish : Cached) (step : String) {body : String}
    [Spells name [.operand .atomic]] (hincrement : IsName increment) (hown : own increment)
    [Spells start.expr [.operand .assignment]] (hstart : Contained own start.setup)
    [Spells finish.expr [.operand .assignment]] (hfinish : Contained own finish.setup)
    [Spells step [.operand .assignment]] (hbody : Contained own body) :
    Contained own (computedCount config name increment start finish step body) := by
  have hindent := h.spells_indent
  have hsize := spells_stepSize step
  have hword := hincrement.spells
  have hflip : Contained own s!"{config.indentUnit}{increment} = -{increment};\n" :=
    contained_of_spells _ (by decide)
  have hturn := contained_braces s!"if ({start.expr} > {finish.expr})" hflip (by decide)
  have hassign : Contained own s!"{name} = {start.expr};\n" := contained_of_spells _ (by decide)
  unfold computedCount
  refine ((((((hstart.append hfinish).append ?_).append hturn).append contained_newline).append
    hassign).append ?_).append contained_newline
  · exact contained_declareVar hincrement hown _
  · exact contained_braces _ hbody (by decide)

theorem fulfils_countLoop (h : Fair plain config) (node : Node) :
    Fulfils plain own config (Sound (Closing plain own)) (countLoop config node) := by
  refine (fulfils_variableOf node).bind fun name hname => ?_
  refine (fulfils_valueOr "FROM" .assignment atom_zero).bind fun start hstart => ?_
  refine (fulfils_valueOr "TO" .assignment atom_zero).bind fun finish hfinish => ?_
  refine (fulfils_valueOr "BY" .assignment atom_one).bind fun step hstep => ?_
  refine (fulfils_askLoopBody "DO").bind fun body hbody => ?_
  split
  · exact Fulfils.pure fun hp => contained_literalCount name start finish _ _ _ (hbody hp)
  · refine (cumulative_contained.cacheBound start (name ++ "_start")).bind fun start' hstart' => ?_
    refine (cumulative_contained.cacheBound finish (name ++ "_end")).bind fun finish' hfinish' => ?_
    refine (fulfils_freshName (name ++ "_inc")).bind fun increment hincrement =>
      Fulfils.pure fun hp => ?_
    obtain ⟨hfrom, hfromSetup⟩ := hstart'
    obtain ⟨hto, htoSetup⟩ := hfinish'
    exact contained_computedCount h start' finish' step hincrement.1 hincrement.2 hfromSetup
      htoSetup (hbody hp)

theorem fulfils_eachLoop (h : Fair plain config) (node : Node) :
    Fulfils plain own config (Sound (Closing plain own)) (eachLoop config node) := by
  refine (fulfils_variableOf node).bind fun name hname => ?_
  refine (fulfils_itemsOr "LIST").bind fun items hitems => ?_
  refine (fulfils_askLoopBody "DO").bind fun body hbody => ?_
  refine (fulfils_freshName (name ++ "_item")).bind fun capture hcapture =>
    Fulfils.pure fun hp => ?_
  have hindent := h.spells_indent
  have hword := hcapture.1.spells
  have htake : Contained own s!"{config.indentUnit}{name} = {capture};\n" :=
    contained_of_spells _ (by decide)
  exact (contained_each hcapture.1 hcapture.2 items (htake.append (hbody hp))).append
    contained_newline

theorem contained_jump {name keyword : String} (h : jump? name = some keyword) :
    Contained own keyword := by
  unfold jump? at h
  split at h
  all_goals simp only [Option.some.injEq, reduceCtorEq] at h
  all_goals subst h
  all_goals exact contained_of_spells _ (by decide)

theorem fulfils_jump (h : Fair plain config) (node : Node) :
    Fulfils plain own config (Sound (Closing plain own)) (jump config node) := by
  refine (fulfils_option node "FLOW").bind fun name _ => ?_
  refine (fulfils_choose node "FLOW" (jump? name)).bind fun keyword hkeyword => ?_
  refine fulfils_askLoop.bind fun loop _ => Fulfils.pure fun hp => ?_
  have haround : Contained own (config.before quotes node.id ++ config.after quotes node.id) :=
    (h.contained_before hp node.id).append (h.contained_after hp node.id)
  cases loop with
  | some id => exact (haround.append (h.contained_before hp id)).append (contained_jump hkeyword)
  | none => exact (haround.append .empty).append (contained_jump hkeyword)

/-- Numbers are harmless inside a comment. -/
theorem isInner_of_numeral {text : List Char} {decimal : Decimal} (h : Chars.Numeral text decimal) :
    IsInner text := by
  have hdigit : ∀ c : Char, c.isDigit = true → c ≠ '\n' ∧ c ≠ '\\' ∧ c ≠ '"' ∧ c ≠ '\'' := by
    intro c hc
    refine ⟨?_, ?_, ?_, ?_⟩
    all_goals
      rintro rfl
      exact absurd hc (by decide)
  cases h with
  | whole digits hdigits => exact fun c hc => hdigit c ((Chars.isDigits_iff.mp hdigits).2 c hc)
  | point whole fraction hwhole hfraction =>
    intro c hc
    rcases List.mem_append.mp hc with hc | hc
    · exact hdigit c ((Chars.isDigits_iff.mp hwhole).2 c hc)
    · rcases List.mem_cons.mp hc with rfl | hc
      · decide
      · exact hdigit c ((Chars.isDigits_iff.mp hfraction).2 c hc)

theorem isInner_codeText (number : Binary64) : IsInner number.codeText.toList := by
  cases number with
  | nan =>
    have htext : IsInner "NaN".toList := by decide
    exact htext
  | infinite negative =>
    have htext : IsInner (if negative then "-inf" else "inf").toList := by
      cases negative <;> decide
    exact htext
  | finite negative significand exponent =>
    obtain ⟨body, decimal, hbody, htext, -⟩ :=
      Binary64.codeText_finite negative significand exponent
    rw [htext]
    intro c hc
    rcases List.mem_append.mp hc with hc | hc
    · split at hc
      · obtain rfl := List.mem_singleton.mp hc
        decide
      · simp at hc
    · exact isInner_of_numeral hbody c hc

theorem fulfils_every (h : Fair plain config) (node : Node) :
    Fulfils plain own config (Sound (Closing plain own)) (every config node) := by
  refine (fulfils_askLoopBody "STMTS").bind fun body hbody => Fulfils.pure fun hp => ?_
  generalize (node.fieldNumber "DURATION").getD _ = duration
  have hindent := h.spells_indent
  have hremarks : Contained own s!"\n// Every {duration.codeText} seconds...\n" ∧
      Contained own s!"{config.indentUnit}// Wait {duration.codeText} seconds\n" := by
    have hinner : Spells duration.codeText [.inner] := spells_iff.mpr (isInner_codeText duration)
    exact ⟨contained_of_spells _ (by decide), contained_of_spells _ (by decide)⟩
  have hsleep : Contained own s!"{config.indentUnit}_ = c.sleep({duration.codeText});\n" := by
    have hseconds : Spells duration.codeText [.operand .unaryPrefix] :=
      spells_iff.mpr (operand_codeText duration)
    exact contained_of_spells _ (by decide)
  have hround := (hbody hp).append (hremarks.2.append hsleep)
  exact (hremarks.1.append (contained_braces "while (true)" hround (by decide))).append
    contained_newline

/-! ### Variables -/

theorem fulfils_getVariable (node : Node) :
    Fulfils plain own config (Sound fine) (getVariable config node) :=
  (fulfils_variableOf node).bind fun _ hname => Fulfils.pure (spells_iff.mp hname)

theorem Cumulative.setVariable (hfine : Cumulative own fine) (node : Node) :
    Fulfils plain own config (Sound fine) (Zig.setVariable config node) := by
  refine (fulfils_valueOr "VALUE" .assignment atom_zero).bind fun value hvalue => ?_
  refine (fulfils_variableOf node).bind fun name hname => Fulfils.pure ?_
  exact hfine.statement _ (by decide)

theorem Cumulative.changeVariable (hfine : Cumulative own fine) (node : Node) :
    Fulfils plain own config (Sound fine) (Zig.changeVariable config node) := by
  refine (fulfils_valueOr "DELTA" .additive atom_zero).bind fun delta hdelta => ?_
  refine (fulfils_variableOf node).bind fun name hname => Fulfils.pure ?_
  exact hfine.statement _ (by decide)

/-! ### Comments -/

/-- Lines of comments are read over. -/
theorem alike_commentLines (remarks : List String) :
    Alike (Text.prefixLines commentMark (String.join (remarks.map (· ++ "\n")))).toList [] := by
  have hlines : (String.join (remarks.map (· ++ "\n"))).toList = [] ∨
      (String.join (remarks.map (· ++ "\n"))).toList.getLast? = some '\n' := by
    induction remarks with
    | nil => exact .inl rfl
    | cons remark rest ih =>
      refine .inr ?_
      rw [List.map_cons, String.join_cons, String.toList_append, List.getLast?_append]
      rcases ih with hnil | hlast
      · simp [hnil]
      · rw [hlast, Option.some_or]
  rw [Text.prefixLines, String.toList_ofList]
  exact alike_prefixLines_comment _ hlines

theorem alike_comments (node : Node) : Alike (node.comments commentMark).toList [] := by
  have happend : ∀ {text more : String}, Alike text.toList [] → Alike more.toList [] →
      Alike (text ++ more).toList [] := by
    intro text more htext hmore
    rw [String.toList_append]
    exact (htext.append_right more.toList).trans hmore
  unfold Node.comments
  refine happend (alike_commentLines node.remark.toList) ?_
  induction node.inputs with
  | nil => exact alike_refl []
  | cons slot rest ih =>
    rw [List.map_cons, String.join_cons]
    exact happend (alike_commentLines (slot.2.nodes.filterMap Node.remark)) ih

theorem contained_comments (node : Node) : Contained own (node.comments commentMark) :=
  .of_alike (alike_comments node) Closed.nil Discreet.nil

/-! ### Procedures -/

/-- A list of operands between commas, or nothing. -/
theorem spells_join_comma {codes : List String} (h : ∀ code ∈ codes, Spells code [.operand .none]) :
    Text.join ", " codes = "" ∨ Spells (Text.join ", " codes) [.operand .none] := by
  by_cases hne : codes = []
  · subst hne
    exact .inl rfl
  · exact .inr (spells_iff.mpr (operand_join_comma hne h))

/-- A list of parameters, or nothing. All but the last of them are closed with their commas. -/
theorem exists_last_parameter {words : List String} (h : ∀ word ∈ words, IsName word) :
    words = [] ∨ ∃ front last,
      Text.join ", " (words.map (· ++ ": f32")) = front ++ last ++ ": f32" ∧
      Spells front [.closed] ∧ IsName last := by
  induction words with
  | nil => exact .inl rfl
  | cons word rest ih =>
    rw [List.forall_mem_cons] at h
    refine .inr ?_
    rcases ih h.2 with rfl | ⟨front, last, hjoin, hfront, hlast⟩
    · exact ⟨"", word, by simp [Text.join], spells_iff.mpr Closed.nil, h.1⟩
    · have hname := h.1.spells
      refine ⟨word ++ ": f32, " ++ front, last, ?_,
        spells_iff.mpr (closed_of_spells _ (by decide)), hlast⟩
      cases rest with
      | nil => simp [Text.join] at hjoin
      | cons next more =>
        have hmark : ": f32" ++ ", " = ": f32, " := by decide
        show word ++ ": f32" ++ ", " ++ Text.join ", " ((next :: more).map (· ++ ": f32")) = _
        rw [hjoin, ← hmark]
        simp only [String.append_assoc]

theorem contained_closing (h : Fair plain config) {injected : String}
    (hinjected : Contained own injected) (branch : String) {result : Option String}
    (hresult : ∀ value ∈ result, Spells value [.operand .none]) :
    Contained own (closing config injected branch result) := by
  cases result with
  | none => exact .empty
  | some value =>
    have hindent := h.spells_indent
    have hvalue := hresult value rfl
    have hreturn : Contained own s!"{config.indentUnit}return {value};\n" :=
      contained_of_spells _ (by decide)
    refine Contained.append ?_ hreturn
    split
    · exact .empty
    · exact hinjected

/-- The text of a procedure binds its parameters and what its body binds. -/
theorem bindsParameters_of_contained (node : Node) {name returns body : String}
    {words : List String} (hname : IsName name) (hwords : ∀ word ∈ words, IsName word)
    (hreturns : returns ∈ ["!f32", "!void"]) (hbody : Contained own body) :
    BindsParameters own
      (node.comments commentMark ++ braces (procedureHead name words returns) body) := by
  have hcomments : Spells (node.comments commentMark) [.closed] :=
    spells_iff.mpr (@contained_comments own node).closed
  have hclosed : Spells body [.closed] := spells_iff.mpr hbody.closed
  have hspelled := hname.spells
  have hall : ∀ returns ∈ ["!f32", "!void"],
      Closed
        (node.comments commentMark ++ braces (procedureHead name words returns) body).toList := by
    unfold procedureHead
    rcases exists_last_parameter hwords with rfl | ⟨front, last, hjoin, hfront, hlast⟩
    · rw [List.map_nil, Text.join, List.forall_mem_cons, List.forall_mem_singleton]
      exact ⟨closed_of_spells _ (by decide), closed_of_spells _ (by decide)⟩
    · have hword := hlast.spells
      rw [hjoin, List.forall_mem_cons, List.forall_mem_singleton]
      exact ⟨closed_of_spells _ (by decide), closed_of_spells _ (by decide)⟩
  obtain ⟨inner, hinner⟩ :=
    boundWords_procedure (alike_comments node) hname hwords hreturns hbody.discreet
  exact ⟨hall returns hreturns, name, words, inner, ⟨node, returns, body, hreturns, rfl⟩,
    hname, hwords, hinner⟩

/-- A procedure is the only thing that an emitter defines. -/
theorem meets_defineProcedure (h : Fair plain config) (node : Node) :
    (defineProcedure config node).Meets ((contract plain own config).toTerms.drawing own)
      (Sound (Closing plain own)) := by
  have hserves := contract_serves plain own config
  refine (fulfils_option node "NAME" _ hserves).bind fun field _ => ?_
  refine Script.Meets.bind (fun _ hname => hname : (Script.procedureName field).Meets _ IsName)
    fun name hname => ?_
  refine (fulfils_askStatements "STACK" _ hserves).bind fun branch hbranch => ?_
  refine (fulfils_askValue "RETURN" .none _ hserves).bind fun result hresult => ?_
  refine (Script.meets_variableNames node.mutation.params).bind fun words hwords => ?_
  refine (Script.meets_defineText name fun hp => ?_).bind fun _ _ => Script.Meets.pure trivial
  have hinjected : Contained own (Text.prefixLines config.indentUnit
      (config.before quotes node.id ++ config.after quotes node.id)) :=
    ((h.contained_before hp node.id).append (h.contained_after hp node.id)).indent h.indent
  have htop := hinjected.append ((h.contained_trap hp node.id).indent h.indent)
  have hbody := (htop.append (hbranch hp)).append (contained_closing h hinjected branch hresult)
  refine bindsParameters_of_contained node hname hwords ?_ hbody
  split
  · exact List.mem_cons_self
  · exact List.mem_cons_of_mem _ List.mem_cons_self

theorem fulfils_callCode (node : Node) :
    Fulfils plain own config (fun code => Spells code [.operand .unaryPrefix]) (callCode node) := by
  refine (fulfils_option node "NAME").bind fun field _ => ?_
  refine (fulfils_procedureName field).bind fun name hname => ?_
  refine (fulfils_valuesOr .none atom_null _).bind fun arguments harguments => Fulfils.pure ?_
  rcases spells_join_comma harguments with hnil | hlisted
  · rw [hnil]
    exact spells_iff.mpr (operand_of_spells _ (by decide))
  · exact spells_iff.mpr (operand_of_spells _ (by decide))

theorem fulfils_callForValue (node : Node) :
    Fulfils plain own config (Sound fine) (callForValue config node) :=
  (fulfils_callCode node).bind fun _ hcall => Fulfils.pure (spells_iff.mp hcall)

theorem Cumulative.callForEffect (hfine : Cumulative own fine) (node : Node) :
    Fulfils plain own config (Sound fine) (Zig.callForEffect config node) := by
  have hcall : Fulfils plain own config (fun code => fine s!"{code};\n") (callCode node) := by
    refine (fulfils_option node "NAME").bind fun field _ => ?_
    refine (fulfils_procedureName field).bind fun name hname => ?_
    refine (fulfils_valuesOr .none atom_null _).bind fun arguments harguments => Fulfils.pure ?_
    rcases spells_join_comma harguments with hnil | hlisted
    · rw [hnil]
      exact hfine.statement _ (by decide)
    · exact hfine.statement _ (by decide)
  exact hcall.bind fun _ hcode => Fulfils.pure hcode

theorem fulfils_returnIf (h : Fair plain config) (node : Node) :
    Fulfils plain own config (Sound (Closing plain own)) (returnIf config node) := by
  have hindent := h.spells_indent
  refine (fulfils_valueOr "CONDITION" .none atom_false).bind fun condition hcondition => ?_
  have hfinish : ∀ back : String,
      Contained own back → plain → Contained own (config.before quotes node.id ++
      braces s!"if ({condition})"
        (Text.prefixLines config.indentUnit (config.after quotes node.id) ++ back) ++
        "\n") := by
    intro back hback hp
    have htest :=
      contained_braces s!"if ({condition})" ((h.contained_lead node.id hp).append hback) (by decide)
    exact ((h.contained_before hp node.id).append htest).append contained_newline
  split
  · refine (fulfils_valueOr "VALUE" .none atom_null).bind fun value hvalue =>
      Fulfils.pure (hfinish _ ?_)
    exact contained_of_spells (config.indentUnit ++ "return" ++ (" " ++ value) ++ ";\n") (by decide)
  · refine Fulfils.pure (hfinish _ ?_)
    exact contained_of_spells (config.indentUnit ++ "return" ++ "" ++ ";\n") (by decide)

end BlockSynth.Zig
