import BlockSynth.Proofs.Zig.Cumulative
import BlockSynth.Proofs.Zig.Sound.List

/-! # Positions keep the contract

The index of an element is shifted to the way Zig counts. Where the code of a list is needed twice
it is a single word or has been bound to one.
-/
namespace BlockSynth.Zig

variable {plain : Prop} {own : String → Prop} {config : Config} {fine : String → Prop}

theorem fulfils_atStart :
    Fulfils plain own config (fun code => Spells code [.operand .none]) (atStart config) :=
  fulfils_index "AT" 0 (by decide)

theorem fulfils_atEnd {place : Rank} (hplace : Rank.unaryPrefix.level ≤ place.level) :
    Fulfils plain own config (fun code => Spells code [.operand place]) (atEnd config place) :=
  fulfils_index "AT" 1 hplace

/-! ### Finding -/

theorem sound_foundPosition (call : String) [h : Spells call [.operand .unaryPostfix]] :
    Sound fine (foundPosition config call) := by
  unfold foundPosition
  split
  · exact operand_of_spells _ (by decide)
  · exact spells_iff.mp h

theorem closedTemplate_textFinder (last : Bool) : ClosedTemplate (textFinder last).2 := by
  unfold textFinder findTemplate
  cases last with
  | false =>
    simp only [Bool.false_eq_true, if_false]
    exact closedTemplate_of_verbatim (by decide +kernel)
  | true =>
    simp only [if_true]
    exact closedTemplate_of_verbatim (by decide +kernel)

theorem closedTemplate_itemFinder (last : Bool) : ClosedTemplate (itemFinder last).2 := by
  unfold itemFinder findTemplate
  cases last with
  | false =>
    simp only [Bool.false_eq_true, if_false]
    exact closedTemplate_of_verbatim (by decide +kernel)
  | true =>
    simp only [if_true]
    exact closedTemplate_of_verbatim (by decide +kernel)

theorem fulfils_findText (h : Fair plain config) (node : Node) :
    Fulfils plain own config (Sound fine) (findText config node) := by
  refine (fulfils_option node "END").bind fun name _ => ?_
  have hchoice : Fulfils plain own config (fun finder => ClosedTemplate finder.2)
      (textFinder <$> choose node "END" (isLast? name)) :=
    (fulfils_choose node "END" (isLast? name)).map fun last _ => closedTemplate_textFinder last
  refine hchoice.bind fun (key, template) hfinder => ?_
  refine (fulfils_valueOr "FIND" .none atom_emptyText).bind fun sub hsub => ?_
  refine (fulfils_valueOr "VALUE" .none atom_emptyText).bind fun text htext => ?_
  refine fulfils_requireStd.bind fun _ _ => ?_
  refine (fulfils_askHelper h key template).bind fun helper hhelper => Fulfils.pure ?_
  have hcall : Spells s!"{helper}({text}, {sub})" [.operand .unaryPostfix] :=
    spells_iff.mpr (operand_of_spells _ (by decide))
  exact sound_foundPosition _

theorem fulfils_findItem (h : Fair plain config) (node : Node) :
    Fulfils plain own config (Sound fine) (findItem config node) := by
  refine (fulfils_option node "END").bind fun name _ => ?_
  have hchoice : Fulfils plain own config (fun finder => ClosedTemplate finder.2)
      (itemFinder <$> choose node "END" (isLast? name)) :=
    (fulfils_choose node "END" (isLast? name)).map fun last _ => closedTemplate_itemFinder last
  refine hchoice.bind fun (key, template) hfinder => ?_
  refine (fulfils_valueOr "FIND" .none atom_zero).bind fun item hitem => ?_
  refine (fulfils_itemsOr "VALUE").bind fun items hitems => ?_
  refine fulfils_requireStd.bind fun _ _ => ?_
  refine (fulfils_askHelper h key template).bind fun helper hhelper => Fulfils.pure ?_
  have hcall : Spells s!"{helper}({items}, {item})" [.operand .unaryPostfix] :=
    spells_iff.mpr (operand_of_spells _ (by decide))
  exact sound_foundPosition _

/-! ### One character of a text -/

instance : ClosedTemplate letterFromEndTemplate := by
  unfold letterFromEndTemplate
  exact closedTemplate_of_verbatim (by decide +kernel)

instance : ClosedTemplate randomLetterTemplate := by
  unfold randomLetterTemplate
  exact closedTemplate_of_verbatim (by decide +kernel)

theorem fulfils_letterCode (h : Fair plain config) (node : Node) (text : String)
    (position : Option Position) [htext : Spells text [.operand (letterRank position)]] :
    Fulfils plain own config (fun code => Operand .unaryPostfix code.toList)
      (letterCode config node text position) := by
  cases position with
  | none => exact fulfils_unknownOption node "WHERE"
  | some position =>
    cases position with
    | first =>
      have hpostfix : Spells text [.operand .unaryPostfix] := htext
      exact Fulfils.done (operand_of_spells _ (by decide))
    | fromStart =>
      have hpostfix : Spells text [.operand .unaryPostfix] := htext
      exact fulfils_atStart.bind fun index hindex => Fulfils.pure (operand_of_spells _ (by decide))
    | last =>
      have hloose : Spells text [.operand .none] := htext
      refine (fulfils_askHelper h _ letterFromEndTemplate).bind fun helper hhelper =>
        Fulfils.pure ?_
      exact operand_of_spells _ (by decide)
    | fromEnd =>
      have hloose : Spells text [.operand .none] := htext
      refine (fulfils_atEnd (by decide)).bind fun back hback => ?_
      refine (fulfils_askHelper h _ letterFromEndTemplate).bind fun helper hhelper =>
        Fulfils.pure ?_
      exact operand_of_spells _ (by decide)
    | random =>
      have hloose : Spells text [.operand .none] := htext
      refine fulfils_requireStd.bind fun _ _ => ?_
      refine (fulfils_askHelper h _ randomLetterTemplate).bind fun helper hhelper => Fulfils.pure ?_
      exact operand_of_spells _ (by decide)

theorem fulfils_letterAt (h : Fair plain config) (node : Node) :
    Fulfils plain own config (Sound fine) (letterAt config node) := by
  refine (fulfils_valueOr "VALUE" _ atom_emptyText).bind fun text htext => ?_
  exact (fulfils_letterCode h node text (positionOf node)).bind fun code hcode => Fulfils.pure hcode

/-! ### One item of a list -/

instance : ClosedTemplate itemFromEndTemplate := by
  unfold itemFromEndTemplate
  exact closedTemplate_of_verbatim (by decide +kernel)

instance : ClosedTemplate removeFromEndTemplate := by
  unfold removeFromEndTemplate
  exact closedTemplate_of_verbatim (by decide +kernel)

instance : ClosedTemplate anyItemTemplate := by
  unfold anyItemTemplate
  exact closedTemplate_of_verbatim (by decide +kernel)

instance : ClosedTemplate removeAnyTemplate := by
  unfold removeAnyTemplate
  exact closedTemplate_of_verbatim (by decide +kernel)

theorem Cumulative.randomIndex (hfine : Cumulative own fine)
    (list : String) [Spells list [.operand .unaryPostfix]] :
    Fulfils plain own config (fun index => Spells index.1 [.operand .atomic] ∧ fine index.2)
      (Zig.randomIndex list) := by
  refine fulfils_requireStd.bind fun _ _ => ?_
  refine (fulfils_freshName "tmp_x").bind fun index hindex => Fulfils.pure ⟨hindex.1.spells, ?_⟩
  have hdraw : Spells s!"std.crypto.random.uintLessThan(usize, {list}.items.len)"
      [.operand .unaryPostfix] :=
    spells_iff.mpr (operand_of_spells _ (by decide))
  have hcode : s!"const {index} = std.crypto.random.uintLessThan(usize, {list}.items.len);\n" =
      declareConst index s!"std.crypto.random.uintLessThan(usize, {list}.items.len)" :=
    String.toList_inj.mp (by simp [declareConst, toString])
  exact hcode ▸ hfine.declare hindex.1 hindex.2 _

/-- A value that is not used. -/
theorem Cumulative.discard (hfine : Cumulative own fine)
    (code : String) [Spells code [.operand .unaryPostfix]] :
    fine s!"_ = {code};\n" :=
  hfine.statement _ (by decide)

theorem Cumulative.sound_removal (hfine : Cumulative own fine) (access : Access) (code : String)
    [h : Spells code [.operand .unaryPostfix]] : Sound fine (removal access code) := by
  unfold removal
  split
  · exact hfine.discard code
  · exact spells_iff.mp h

theorem Cumulative.sound_accessAt (hfine : Cumulative own fine) (access : Access)
    (list index : String) [Spells list [.operand .unaryPostfix]] [Spells index [.operand .none]] :
    Sound fine (accessAt access list index) := by
  unfold accessAt
  split
  · exact operand_of_spells _ (by decide)
  · have hcode : Spells s!"{list}.orderedRemove({index})" [.operand .unaryPostfix] :=
      spells_iff.mpr (operand_of_spells _ (by decide))
    exact hfine.sound_removal access _

theorem Cumulative.accessComputed (hfine : Cumulative own fine) (h : Fair plain config)
    (access : Access) (position : Position) (list : String) [Spells list [.operand .unaryPostfix]] :
    Fulfils plain own config (Sound fine) (Zig.accessComputed config access position list) := by
  unfold Zig.accessComputed
  split
  · refine (hfine.cache list "tmp_list").bind fun cached hcached => ?_
    obtain ⟨hexpr, hsetup⟩ := hcached
    refine (hfine.randomIndex cached.expr).bind fun (index, setup) hindex => ?_
    obtain ⟨hword, hdeclare⟩ : Spells index [.operand .atomic] ∧ fine setup := hindex
    have hremove : fine s!"_ = {cached.expr}.orderedRemove({index});\n" :=
      hfine.statement _ (by decide)
    refine Fulfils.pure ?_
    simpa [Sound, toString, String.append_assoc]
      using hfine.append hsetup (hfine.append hdeclare hremove)
  · cases access with
    | remove =>
      refine (fulfils_atEnd (by decide)).bind fun back hback => ?_
      refine (hfine.cache list "tmp_list").bind fun cached hcached => ?_
      obtain ⟨hexpr, hsetup⟩ := hcached
      have hcode : Spells s!"{cached.expr}.orderedRemove({cached.expr}.items.len - {back})"
          [.operand .unaryPostfix] := spells_iff.mpr (operand_of_spells _ (by decide))
      have hremove :=
        hfine.discard s!"{cached.expr}.orderedRemove({cached.expr}.items.len - {back})"
      refine Fulfils.pure ?_
      simpa [Sound, toString, String.append_assoc] using hfine.append hsetup hremove
    | get =>
      refine (fulfils_atEnd (by decide)).bind fun back hback => ?_
      refine (fulfils_askHelper h _ itemFromEndTemplate).bind fun helper hhelper => Fulfils.pure ?_
      exact operand_of_spells _ (by decide)
    | getRemove =>
      refine (fulfils_atEnd (by decide)).bind fun back hback => ?_
      refine (fulfils_askHelper h _ removeFromEndTemplate).bind fun helper hhelper =>
        Fulfils.pure ?_
      exact operand_of_spells _ (by decide)

theorem Cumulative.accessDirect (hfine : Cumulative own fine) (h : Fair plain config)
    (access : Access) (position : Position) (list : String) [Spells list [.operand .unaryPostfix]] :
    Fulfils plain own config (Sound fine) (Zig.accessDirect config access position list) := by
  cases position with
  | first =>
    have hzero := atom_zero.spells .none
    exact Fulfils.done (hfine.sound_accessAt access list "0")
  | last =>
    refine Fulfils.done ?_
    split
    · exact operand_of_spells _ (by decide)
    · have hcode : Spells s!"{list}.pop()" [.operand .unaryPostfix] :=
        spells_iff.mpr (operand_of_spells _ (by decide))
      exact hfine.sound_removal access _
  | fromStart =>
    exact fulfils_atStart.bind fun index hindex =>
      Fulfils.pure (hfine.sound_accessAt access list index)
  | fromEnd =>
    refine (fulfils_atEnd (by decide)).bind fun back hback => Fulfils.pure ?_
    have hindex : Spells s!"{list}.items.len - {back}" [.operand .none] :=
      spells_iff.mpr (operand_of_spells _ (by decide))
    exact hfine.sound_accessAt access list _
  | random =>
    cases access with
    | remove =>
      refine (hfine.randomIndex list).bind fun (index, setup) hindex => ?_
      obtain ⟨hword, hdeclare⟩ : Spells index [.operand .atomic] ∧ fine setup := hindex
      have hremove : fine s!"_ = {list}.orderedRemove({index});\n" := hfine.statement _ (by decide)
      refine Fulfils.pure ?_
      simpa [Sound, toString, String.append_assoc] using hfine.append hdeclare hremove
    | get =>
      refine fulfils_requireStd.bind fun _ _ => ?_
      refine (fulfils_askHelper h _ anyItemTemplate).bind fun helper hhelper => Fulfils.pure ?_
      exact operand_of_spells _ (by decide)
    | getRemove =>
      refine fulfils_requireStd.bind fun _ _ => ?_
      refine (fulfils_askHelper h _ removeAnyTemplate).bind fun helper hhelper => Fulfils.pure ?_
      exact operand_of_spells _ (by decide)

theorem Cumulative.getItem (hfine : Cumulative own fine) (h : Fair plain config) (node : Node) :
    Fulfils plain own config (Sound fine) (Zig.getItem config node) := by
  refine (fulfils_choose node "MODE" _).bind fun access _ => ?_
  refine (fulfils_choose node "WHERE" (positionOf node)).bind fun position _ => ?_
  refine (fulfils_listOr "VALUE").bind fun list hlist => ?_
  split
  · exact hfine.accessComputed h access position list
  · exact hfine.accessDirect h access position list

theorem Cumulative.writeAt (hfine : Cumulative own fine) (insert : Bool)
    (list index value : String) [Spells list [.operand .unaryPostfix]]
    [Spells index [.operand .none]] [Spells value [.operand .assignment]] :
    fine (Zig.writeAt insert list index value) := by
  unfold Zig.writeAt
  split
  · exact hfine.statement _ (by decide)
  · exact hfine.statement _ (by decide)

theorem Cumulative.writable (hfine : Cumulative own fine) (insert : Bool) (position : Position)
    (list : String) [hlist : Spells list [.operand .unaryPostfix]] :
    Fulfils plain own config
      (fun cached : Cached => Spells cached.expr [.operand .unaryPostfix] ∧ fine cached.setup)
      (Zig.writable insert position list) := by
  have hplain : Fulfils plain own config
      (fun cached : Cached => Spells cached.expr [.operand .unaryPostfix] ∧ fine cached.setup)
        (.done ⟨list, ""⟩) :=
    Fulfils.done ⟨hlist, hfine.empty⟩
  unfold Zig.writable
  split
  · split
    · exact hplain
    · exact hfine.cache list "tmp_list"
  · exact hfine.cache list "tmp_list"
  · exact hfine.cache list "tmp_list"
  · exact hplain

theorem Cumulative.writeItem (hfine : Cumulative own fine)
    (insert : Bool) (position : Position) (list value : String)
    [Spells list [.operand .unaryPostfix]] [Spells value [.operand .assignment]] :
    Fulfils plain own config fine (Zig.writeItem config insert position list value) := by
  cases position with
  | first =>
    have hzero := atom_zero.spells .none
    exact Fulfils.done (hfine.writeAt insert list "0" value)
  | last =>
    refine Fulfils.done ?_
    split
    · exact hfine.statement _ (by decide)
    · have hindex : Spells s!"{list}.items.len - 1" [.operand .none] :=
        spells_iff.mpr (operand_of_spells _ (by decide))
      exact hfine.writeAt false list _ value
  | fromStart =>
    exact fulfils_atStart.bind fun index hindex =>
      Fulfils.pure (hfine.writeAt insert list index value)
  | fromEnd =>
    refine (fulfils_atEnd (by decide)).bind fun back hback => Fulfils.pure ?_
    have hindex : Spells s!"{list}.items.len - {back}" [.operand .none] :=
      spells_iff.mpr (operand_of_spells _ (by decide))
    exact hfine.writeAt insert list _ value
  | random =>
    refine (hfine.randomIndex list).bind fun (index, setup) hindex => ?_
    obtain ⟨hword, hdeclare⟩ : Spells index [.operand .atomic] ∧ fine setup := hindex
    have hloose : Spells index [.operand .none] := spells_operand_none index
    exact Fulfils.pure (hfine.append hdeclare (hfine.writeAt insert list index value))

theorem Cumulative.setItem (hfine : Cumulative own fine) (node : Node) :
    Fulfils plain own config (Sound fine) (Zig.setItem config node) := by
  refine (fulfils_choose node "MODE" _).bind fun insert _ => ?_
  refine (fulfils_choose node "WHERE" (positionOf node)).bind fun position _ => ?_
  refine (fulfils_listOr "LIST").bind fun list hlist => ?_
  refine (fulfils_valueOr "TO" .assignment atom_zero).bind fun value hvalue => ?_
  refine (hfine.writable insert position list).bind fun target htarget => ?_
  obtain ⟨hexpr, hsetup⟩ := htarget
  exact (hfine.writeItem insert position target.expr value).bind fun code hcode =>
    Fulfils.pure (hfine.append hsetup hcode)

end BlockSynth.Zig
