import BlockSynth.Proofs.Zig.Contract
import BlockSynth.Zig.Position
import BlockSynth.Zig.Slice
import BlockSynth.Zig.Statistics

/-! # Lists keep the contract

A list stands in front of a point or a bracket, so it is asked for at the rank of a postfix; indices
stand between brackets or behind a minus sign.
-/
namespace BlockSynth.Zig

variable {plain : Prop} {own : String → Prop} {config : Config} {fine : String → Prop}

theorem fulfils_itemsOr (slot : String) :
    Fulfils plain own config (fun items =>
      Spells items [.operand .unaryPrefix]) (itemsOr slot) := by
  refine (fulfils_askValue slot .unaryPostfix).bind fun list hlist => ?_
  cases list with
  | some list =>
    have hspells := hlist list rfl
    exact Fulfils.pure (spells_iff.mpr (operand_of_spells _ (by decide)))
  | none =>
    unfold noItems
    exact Fulfils.pure (spells_iff.mpr (operand_of_spells _ (by decide)))

theorem operand_newList : Operand .unaryPostfix newList.toList := by
  unfold newList
  exact operand_of_spells _ (by decide)

theorem fulfils_listOr (slot : String) :
    Fulfils plain own config (fun list => Spells list [.operand .unaryPostfix]) (listOr slot) := by
  refine (fulfils_askValue slot .unaryPostfix).bind fun list hlist => ?_
  cases list with
  | some list => exact Fulfils.pure (hlist list rfl)
  | none =>
    exact fulfils_requireAllocator.bind fun _ _ => Fulfils.pure (spells_iff.mpr operand_newList)

/-- Operands between commas. -/
theorem operand_join_comma {codes : List String} (hne : codes ≠ [])
    (h : ∀ code ∈ codes, Spells code [.operand .none]) :
    Operand .none (Text.join ", " codes).toList := by
  induction codes with
  | nil => exact absurd rfl hne
  | cons code rest ih =>
    have hcode := h code List.mem_cons_self
    cases rest with
    | nil => exact spells_iff.mp hcode
    | cons next more =>
      have hrest : Spells (Text.join ", " (next :: more)) [.operand .none] :=
        spells_iff.mpr (ih (by simp) fun other hother => h other (List.mem_cons_of_mem _ hother))
      unfold Text.join
      exact operand_of_spells _ (by decide)

/-! ### Sequences -/

theorem fulfils_emptyList (node : Node) :
    Fulfils plain own config (Sound fine) (emptyList config node) :=
  fulfils_requireAllocator.bind fun _ _ => Fulfils.pure operand_newList

instance : ClosedTemplate copyTemplate := by
  unfold copyTemplate
  exact closedTemplate_of_verbatim (by decide +kernel)

theorem fulfils_copyItems (h : Fair plain config) (items : String) {rank : Rank}
    [Spells items [.operand rank]] :
    Fulfils plain own config (fun code => Operand .unaryPrefix code.toList) (copyItems items) := by
  have hitems : Spells items [.operand .none] := spells_operand_none items
  refine fulfils_requireAllocator.bind fun _ _ => ?_
  refine (fulfils_askHelper h _ copyTemplate).bind fun helper hhelper => Fulfils.pure ?_
  exact operand_of_spells _ (by decide)

theorem fulfils_listOf (h : Fair plain config) (node : Node) :
    Fulfils plain own config (Sound fine) (listOf config node) := by
  refine (fulfils_valuesOr .none atom_zero (itemSlots node)).bind fun items hitems => ?_
  have hvalues : Spells
      (if items.isEmpty then noItems else "&[_]f32\x7b " ++ Text.join ", " items ++ " \x7d")
      [.operand .unaryPrefix] := by
    split
    · unfold noItems
      exact spells_iff.mpr (operand_of_spells _ (by decide))
    · rename_i hempty
      have hjoin : Spells (Text.join ", " items) [.operand .none] :=
        spells_iff.mpr (operand_join_comma (by simpa using hempty) hitems)
      exact spells_iff.mpr (operand_of_spells _ (by decide))
  exact (fulfils_copyItems h _).bind fun code hcode => Fulfils.pure hcode

instance : ClosedTemplate repeatTemplate := by
  unfold repeatTemplate
  exact closedTemplate_of_verbatim (by decide +kernel)

theorem fulfils_repeatItem (h : Fair plain config) (node : Node) :
    Fulfils plain own config (Sound fine) (repeatItem config node) := by
  refine (fulfils_valueOr "ITEM" .none atom_zero).bind fun item hitem => ?_
  refine (fulfils_valueOr "NUM" .none atom_zero).bind fun times htimes => ?_
  refine fulfils_requireAllocator.bind fun _ _ => ?_
  refine (fulfils_askHelper h _ repeatTemplate).bind fun helper hhelper => Fulfils.pure ?_
  exact operand_of_spells _ (by decide)

theorem fulfils_listLength (node : Node) :
    Fulfils plain own config (Sound fine) (listLength config node) :=
  (fulfils_listOr "VALUE").bind fun _ _ => Fulfils.pure (operand_of_spells _ (by decide))

theorem fulfils_listIsEmpty (node : Node) :
    Fulfils plain own config (Sound fine) (listIsEmpty config node) :=
  (fulfils_listOr "VALUE").bind fun _ _ => Fulfils.pure (operand_of_spells _ (by decide))

theorem closedTemplate_sort {direction : Option Binary64} {order : String}
    (h : sortOrder? direction = some order) : ClosedTemplate (sortTemplate order) := by
  unfold sortOrder? at h
  unfold sortTemplate
  split at h
  all_goals simp only [Option.some.injEq, reduceCtorEq] at h
  all_goals subst h
  all_goals exact closedTemplate_of_verbatim (by decide +kernel)

theorem fulfils_sortList (h : Fair plain config) (node : Node) :
    Fulfils plain own config (Sound fine) (sortList config node) := by
  refine (fulfils_option node "TYPE").bind fun type _ => ?_
  refine (fulfils_choose node "TYPE" (sortType? type)).bind fun _ _ => ?_
  refine (fulfils_choose node "DIRECTION" _).bind fun order horder => ?_
  have htemplate := closedTemplate_sort horder
  refine (fulfils_itemsOr "LIST").bind fun items hitems => ?_
  refine fulfils_requireAllocator.bind fun _ _ => ?_
  refine (fulfils_askHelper h _ (sortTemplate order)).bind fun helper hhelper => Fulfils.pure ?_
  exact operand_of_spells _ (by decide)

instance : ClosedTemplate splitTemplate := by
  unfold splitTemplate
  exact closedTemplate_of_verbatim (by decide +kernel)

theorem fulfils_splitOrJoin (h : Fair plain config) (node : Node) :
    Fulfils plain own config (Sound fine) (splitOrJoin config node) := by
  refine (fulfils_option node "MODE").bind fun mode _ => ?_
  refine (fulfils_choose node "MODE" (isSplit? mode)).bind fun splits _ => ?_
  refine (fulfils_valueOr "DELIM" .none atom_emptyText).bind fun delimiter hdelimiter => ?_
  refine fulfils_requireAllocator.bind fun _ _ => ?_
  cases splits with
  | true =>
    refine (fulfils_valueOr "INPUT" .none atom_emptyText).bind fun text htext => ?_
    refine (fulfils_askHelper h _ splitTemplate).bind fun helper hhelper => Fulfils.pure ?_
    exact operand_of_spells _ (by decide)
  | false =>
    refine (fulfils_itemsOr "INPUT").bind fun items hitems => Fulfils.pure ?_
    exact operand_of_spells _ (by decide)

instance : ClosedTemplate reverseListTemplate := by
  unfold reverseListTemplate
  exact closedTemplate_of_verbatim (by decide +kernel)

theorem fulfils_reverseList (h : Fair plain config) (node : Node) :
    Fulfils plain own config (Sound fine) (reverseList config node) := by
  refine (fulfils_itemsOr "LIST").bind fun items hitems => ?_
  refine fulfils_requireAllocator.bind fun _ _ => ?_
  refine (fulfils_askHelper h _ reverseListTemplate).bind fun helper hhelper => Fulfils.pure ?_
  exact operand_of_spells _ (by decide)

/-! ### Statistics -/

instance : ClosedTemplate sumTemplate := by
  unfold sumTemplate
  exact closedTemplate_of_verbatim (by decide +kernel)

instance : ClosedTemplate minTemplate := by
  unfold minTemplate guardEmpty
  exact closedTemplate_of_verbatim (by decide +kernel)

instance : ClosedTemplate maxTemplate := by
  unfold maxTemplate guardEmpty
  exact closedTemplate_of_verbatim (by decide +kernel)

instance : ClosedTemplate meanTemplate := by
  unfold meanTemplate guardEmpty
  exact closedTemplate_of_verbatim (by decide +kernel)

instance : ClosedTemplate medianTemplate := by
  unfold medianTemplate guardEmpty
  exact closedTemplate_of_verbatim (by decide +kernel)

instance : ClosedTemplate modesTemplate := by
  unfold modesTemplate
  exact closedTemplate_of_verbatim (by decide +kernel)

instance : ClosedTemplate deviationTemplate := by
  unfold deviationTemplate guardEmpty
  exact closedTemplate_of_verbatim (by decide +kernel)

instance : ClosedTemplate randomItemTemplate := by
  unfold randomItemTemplate
  exact closedTemplate_of_verbatim (by decide +kernel)

theorem closedTemplate_aggregate {name : String} {aggregate : Aggregate}
    (h : aggregate? name = some aggregate) : ClosedTemplate aggregate.template := by
  unfold aggregate? at h
  split at h
  all_goals simp only [Option.some.injEq, reduceCtorEq] at h
  all_goals subst h
  all_goals infer_instance

theorem fulfils_aggregateList (h : Fair plain config) (node : Node) :
    Fulfils plain own config (Sound fine) (aggregateList config node) := by
  refine (fulfils_option node "OP").bind fun name _ => ?_
  refine (fulfils_choose node "OP" (aggregate? name)).bind fun aggregate haggregate => ?_
  have htemplate := closedTemplate_aggregate haggregate
  split
  · refine fulfils_requireAllocator.bind fun _ _ => ?_
    refine (fulfils_askHelper h _ aggregate.template).bind fun helper hhelper => ?_
    refine (fulfils_itemsOr "LIST").bind fun items hitems => Fulfils.pure ?_
    exact operand_of_spells _ (by decide)
  · refine fulfils_requireStd.bind fun _ _ => ?_
    refine (fulfils_askHelper h _ aggregate.template).bind fun helper hhelper => ?_
    refine (fulfils_itemsOr "LIST").bind fun items hitems => Fulfils.pure ?_
    exact operand_of_spells _ (by decide)

/-! ### Slices -/

theorem fulfils_sliceEnds (node : Node) :
    Fulfils plain own config (fun _ => True) (sliceEnds node) := by
  refine (fulfils_choose node "WHERE1" _).bind fun start _ => ?_
  exact (fulfils_choose node "WHERE2" _).bind fun finish _ => Fulfils.pure trivial

theorem fulfils_sliceFrom (items : String)
    [Spells items [.operand .unaryPostfix]] (start : SliceStart) :
    Fulfils plain own config (fun low =>
      Spells low [.operand .none]) (sliceFrom config items start) := by
  cases start with
  | fromStart => exact fulfils_index "AT1" 0 (by decide)
  | fromEnd =>
    refine (fulfils_index "AT1" 1 (by decide)).bind fun back hback => Fulfils.pure ?_
    exact spells_iff.mpr (operand_of_spells _ (by decide))
  | first => exact Fulfils.done (atom_zero.spells .none)

theorem fulfils_sliceInPlace (items : String) [Spells items [.operand .unaryPostfix]]
    (start : SliceStart) (finish : SliceEnd) :
    Fulfils plain own config (fun code => Spells code [.operand .unaryPostfix])
      (sliceInPlace config items start finish) := by
  refine (fulfils_sliceFrom items start).bind fun low hlow => ?_
  cases finish with
  | fromStart =>
    refine (fulfils_index "AT2" 1 (by decide)).bind fun high hhigh => Fulfils.pure ?_
    exact spells_iff.mpr (operand_of_spells _ (by decide))
  | fromEnd =>
    refine (fulfils_index "AT2" 0 (by decide)).bind fun back hback => Fulfils.pure ?_
    exact spells_iff.mpr (operand_of_spells _ (by decide))
  | last => exact Fulfils.pure (spells_iff.mpr (operand_of_spells _ (by decide)))

theorem fulfils_sliceThrough (h : Fair plain config) (key template items : String)
    [ClosedTemplate template] [Spells items [.operand .unaryPostfix]] (start : SliceStart)
    (finish : SliceEnd) :
    Fulfils plain own config (fun code => Spells code [.operand .unaryPostfix])
      (sliceThrough config key template items start finish) := by
  refine (fulfils_index "AT1" 0 (by decide)).bind fun at1 hat1 => ?_
  refine (fulfils_index "AT2" 0 (by decide)).bind fun at2 hat2 => ?_
  refine (fulfils_askHelper h key template).bind fun helper hhelper => Fulfils.pure ?_
  have htag1 := (atom_quote start.tag).spells .none
  have htag2 := (atom_quote finish.tag).spells .none
  exact spells_iff.mpr (operand_of_spells _ (by decide))

set_option synthInstance.maxSize 400 in
instance : ClosedTemplate subtextTemplate := by
  dsimp only [subtextTemplate, sliceBounds, sliceParameters]
  exact closedTemplate_of_verbatim (by decide +kernel)

set_option synthInstance.maxSize 400 in
instance : ClosedTemplate sublistTemplate := by
  dsimp only [sublistTemplate, sliceBounds, sliceParameters]
  exact closedTemplate_of_verbatim (by decide +kernel)

theorem fulfils_subtext (h : Fair plain config) (node : Node) :
    Fulfils plain own config (Sound fine) (subtext config node) := by
  refine (fulfils_sliceEnds node).bind fun (start, finish) _ => ?_
  dsimp only
  split
  · refine (fulfils_valueOr "STRING" .none atom_emptyText).bind fun text htext => Fulfils.pure ?_
    exact spells_iff.mp htext
  · refine (fulfils_valueOr "STRING" .unaryPostfix atom_emptyText).bind fun text htext => ?_
    split
    · refine (fulfils_sliceInPlace text start finish).bind fun code hcode => Fulfils.pure ?_
      exact spells_iff.mp hcode
    · refine fulfils_requireStd.bind fun _ _ => ?_
      refine (fulfils_sliceThrough h _ subtextTemplate text start finish).bind fun call hcall =>
        Fulfils.pure ?_
      exact spells_iff.mp hcall

theorem fulfils_sublist (h : Fair plain config) (node : Node) :
    Fulfils plain own config (Sound fine) (sublist config node) := by
  refine (fulfils_sliceEnds node).bind fun (start, finish) _ => ?_
  refine (fulfils_listOr "LIST").bind fun list hlist => ?_
  have hitems : Spells (list ++ ".items") [.operand .unaryPostfix] :=
    spells_iff.mpr (operand_of_spells _ (by decide))
  show Fulfils plain own config (Sound fine)
    (if Text.isWord list || lengthFree start finish then _ else _)
  generalize list ++ ".items" = items at hitems ⊢
  split
  · refine (fulfils_sliceInPlace items start finish).bind fun slice hslice => ?_
    exact (fulfils_copyItems h slice).bind fun code hcode => Fulfils.pure hcode
  · refine fulfils_requireAllocator.bind fun _ _ => ?_
    refine (fulfils_sliceThrough h _ sublistTemplate items start finish).bind fun call hcall =>
      Fulfils.pure ?_
    exact operand_of_spells _ (by decide)

end BlockSynth.Zig
