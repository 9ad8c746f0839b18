import BlockSynth.Proofs.Zig.Access
import BlockSynth.Proofs.Zig.Growth
import BlockSynth.Proofs.Zig.Temperate
import BlockSynth.Proofs.Zig.Unsigned

/-! # Elements of lists and texts

Where code reads, removes, writes or inserts an element it computes a position, in
place or inside a helper that is given the distance from the end. All of them count
alike: from the start or from the end, from zero or from one.
-/
namespace BlockSynth.Zig

variable {config : Config} {node : Node} {session next : Session}

/-! ### Slots -/

/-- What a slot is rendered as, or what stands for it if it is empty. All names in it
are those of a later session. -/
def Rendered (config : Config) (node : Node) (next : Session)
    (slot fallback text : String) : Prop :=
  ∃ place before code after,
    slotCode config node slot place before = .ok code after ∧ Later after next ∧
    text = code.getD fallback

theorem Rendered.later {between : Session} {slot fallback text : String}
    (h : Rendered config node between slot fallback text) (hlater : Later between next) :
    Rendered config node next slot fallback text := by
  obtain ⟨place, before, code, after, hrun, hbetween, htext⟩ := h
  exact ⟨place, before, code, after, hrun, hbetween.trans hlater, htext⟩

variable (hindent : IsIndent config.indentUnit.toList) (hsession : Named session)

include hindent hsession

theorem gives_askValue (slot : String) (place : Rank) :
    Gives config node (.askValue slot place) session fun code next =>
      (∀ fallback, Rendered config node next slot fallback (code.getD fallback)) ∧
        ∀ text ∈ code, Operand place text.toList ∧ Suits place text := by
  intro code next hrun
  have hlater := later_of_ask hsession hrun
  obtain ⟨answer, after, hcode, hpure⟩ := Synth.ok_of_bind hrun
  obtain ⟨rfl, rfl⟩ := EStateM.Result.ok.inj hpure
  have hanswer := ((keeps_slotCode hindent node slot place).of_ok hsession hcode).1
  exact ⟨fun fallback =>
    ⟨place, session, answer, after, hcode, Later.refl hlater.toNamed, rfl⟩, hanswer⟩

theorem gives_valueOr (slot : String) (place : Rank)
    {fallback : String} (hfallback : Atom fallback.toList) :
    Gives config node (.valueOr slot place fallback) session fun text next =>
      Rendered config node next slot fallback text ∧ Operand place text.toList := by
  refine (gives_askValue hindent hsession slot place).bind hsession
    fun code between hbetween hcode => ?_
  refine Gives.pure ⟨hcode.1 fallback, ?_⟩
  cases code with
  | none => exact hfallback.operand place
  | some text => exact (hcode.2 text rfl).1

theorem gives_listOr (slot : String) :
    Gives config node (listOr slot) session fun list next =>
      Rendered config node next slot newList list ∧ Operand .unaryPostfix list.toList := by
  refine (gives_askValue hindent hsession slot .unaryPostfix).bind hsession
    fun code between hbetween hcode => ?_
  cases code with
  | some list => exact Gives.pure ⟨hcode.1 newList, (hcode.2 list rfl).1⟩
  | none =>
    refine (gives_any requireAllocator).bind hbetween.toNamed fun _ last hlast _ => ?_
    exact Gives.pure ⟨(hcode.1 newList).later hlast, operand_newList⟩

/-! ### Distances -/

theorem gives_index {slot : String}
    (hdoubles : ∀ inner, node.input slot = some inner → OfDoubles inner)
    {delta : Int} (hdelta : delta = 0 ∨ delta = 1) (place : Rank) :
    Gives config node (.index config slot delta false place) session fun text next =>
      ∃ raw, Rendered config node next slot (firstIndex config) raw ∧
        Shifts place raw (rebased config delta) text := by
  intro text next hrun
  have hlater := later_of_ask hsession hrun
  rw [ask_index] at hrun
  obtain ⟨code, after, hcode, hpure⟩ := Synth.ok_of_bind hrun
  obtain ⟨rfl, rfl⟩ := EStateM.Result.ok.inj hpure
  have hmoderate : Synth.Keeps Named (fun code => ∀ text ∈ code, Moderate text)
      (slotCode config node slot _) :=
    keeps_slotCode_of_forall (fun text htext => by simp at htext) fun inner hinner =>
      keeps_moderate (hdoubles inner hinner)
        (IndexOperand.operandRank (rebased config delta) false place)
  have hliteral := (hmoderate.of_ok hsession hcode).1
  have hfits := ((keeps_slotCode hindent node slot _).of_ok hsession hcode).1
  have hraw : Moderate (code.getD (firstIndex config)) ∧
      Suits (IndexOperand.operandRank (rebased config delta) false place)
        (code.getD (firstIndex config)) := by
    cases code with
    | none =>
      refine ⟨?_, (atom_firstIndex config).suits _⟩
      unfold firstIndex Moderate
      split <;> decide
    | some raw => exact ⟨hliteral raw rfl, (hfits raw rfl).2⟩
  have hrebased : -1 ≤ rebased config delta ∧ rebased config delta ≤ 1 := by
    unfold rebased
    split <;> omega
  refine ⟨_, ⟨_, session, code, after, hcode, Later.refl hlater.toNamed, rfl⟩, ?_⟩
  exact shifts_adjust hraw.2 (hraw.1.unsaturated hrebased.1 hrebased.2)

/-- Code that is worth as much more than an index as it is moved, and fits its place. -/
def Moves (place : Rank) (raw : String) (delta : Int) (text : String) : Prop :=
  ∀ reckoning k, Worth reckoning raw k →
    ∃ amount, Denotes (reach place) text amount ∧ amount.eval reckoning = k + delta

omit hindent hsession

theorem Shifts.moves {place : Rank} {raw text : String}
    {delta : Int} (h : Shifts place raw delta text) :
    Moves place raw delta text := by
  intro reckoning k hworth
  obtain ⟨tree, hdenotes, hvalue⟩ := h .whole reckoning k hworth.indicates
  exact ⟨tree, hdenotes, Option.some.inj (tree.compute_whole reckoning ▸ hvalue)⟩

/-! ### Positions -/

/-- The code of the index that a position is counted by. The first and the last
element have the first index. -/
def Indexed (config : Config) (node : Node) (next : Session) (raw : String) : Position → Prop
  | .fromStart => Rendered config node next "AT" (firstIndex config) raw
  | .fromEnd => Rendered config node next "AT" (firstIndex config) raw
  | _ => raw = firstIndex config

/-- The owner of the elements, bound to a name or not. -/
def Binds (code : String) (owner : Cached) : Prop :=
  owner = ⟨code, ""⟩ ∨ ∃ word, IsName word ∧ owner = ⟨word, declareConst word code⟩

/-- The emission touches the element that its node says. What the length of an owner is worth is
only of concern where the owner is a word. -/
def Agrees (config : Config) (node : Node) (next : Session) (holder : Holder) (code : String)
    (position : Position) (emission : Emission) : Prop :=
  ∃ owner raw, Binds code owner ∧ Indexed config node next raw position ∧ ∀ reckoning n k,
    (Text.isWord owner.expr = true → Worth reckoning (holder.length owner.expr) n) →
    Worth reckoning raw k →
      ∀ spot ∈ position.spot? config n k,
        Touches next.helpers.realized reckoning owner n holder emission spot

theorem agrees_random {holder : Holder} {code : String} {emission : Emission} :
    Agrees config node next holder code .random emission :=
  ⟨⟨code, ""⟩, _, .inl rfl, rfl, fun _ _ _ _ _ spot hspot => by simp [Position.spot?] at hspot⟩

theorem rebased_zero : rebased config 0 = -base config := by
  unfold rebased base
  split <;> rfl

theorem rebased_one : rebased config 1 = 1 - base config := by
  unfold rebased base
  split <;> rfl

/-! ### Texts -/

section

variable (hindent : IsIndent config.indentUnit.toList) (hsession : Named session)
  (hdoubles : ∀ inner, node.input "AT" = some inner → OfDoubles inner)

include hindent hsession hdoubles

theorem gives_atStart :
    Gives config node (atStart config) session fun index next =>
      ∃ raw, Indexed config node next raw .fromStart ∧ ∀ reckoning k, Worth reckoning raw k →
        Worth reckoning index (k - base config) := by
  refine (gives_index hindent hsession hdoubles (.inl rfl) .none).mono fun index next hshifts => ?_
  obtain ⟨raw, hrendered, hshifts⟩ := hshifts
  refine ⟨raw, hrendered, fun reckoning k hk => ?_⟩
  obtain ⟨amount, hdenotes, hvalue⟩ := hshifts.moves reckoning k hk
  have hworth := hdenotes.worth (by decide) reckoning
  rw [hvalue, rebased_zero] at hworth
  exact hworth

/-- What is taken off the length for an index that counts from the end. -/
theorem gives_atEnd (place : Rank) :
    Gives config node (atEnd config place) session fun back next =>
      ∃ raw, Indexed config node next raw .fromEnd ∧ ∀ reckoning k, Worth reckoning raw k →
        ∃ amount,
          Denotes (reach place) back amount ∧ amount.eval reckoning = k + (1 - base config) := by
  refine (gives_index hindent hsession hdoubles (.inr rfl) place).mono fun back next hshifts => ?_
  obtain ⟨raw, hrendered, hshifts⟩ := hshifts
  rw [rebased_one] at hshifts
  exact ⟨raw, hrendered, hshifts.moves⟩

/-- A helper that is given the distance from the end, before what goes on with its call. -/
theorem gives_throughHelper {α : Type} {key template owner passed : String} {holder inner : Holder}
    {post : α → Session → Prop} (call : String → String → String) (rest : String → Script α)
    (hcall : ∀ helper back, call helper back = s!"{helper}({passed}, {back})")
    (hpasses : Passes owner holder passed inner) (hlocates : ∀ n, Locates template inner n (n - ·))
    (hrest : ∀ code last, (∃ raw, Indexed config node last raw .fromEnd ∧ ∀ reckoning n k,
      Worth reckoning raw k → ∀ spot ∈ Position.fromEnd.spot? config n k,
      Addresses last.helpers.realized reckoning owner n holder code spot) →
      Gives config node (rest code) last post) :
    Gives config node (atEnd config .none >>= fun back =>
      .askHelper key template >>= fun helper => rest (call helper back)) session post := by
  refine (gives_atEnd hindent hsession hdoubles .none).bind hsession
    fun back later hlater hback => ?_
  obtain ⟨raw, hraw, hworth⟩ := hback
  refine (gives_askHelper key template).bind hlater.toNamed fun helper last hlast hmem => ?_
  refine hrest _ last ⟨raw, hraw.later hlast, fun reckoning n k hk spot hspot => ?_⟩
  obtain ⟨amount, hdenotes, hvalue⟩ := hworth reckoning k hk
  rw [spot_fromEnd hvalue hspot, hcall]
  exact addresses_fromEnd hmem hpasses (hlocates n) (hdenotes.worth (by decide) reckoning)

theorem gives_letterCode (text : String) (position : Position) :
    Gives config node (letterCode config node text (some position)) session fun code next =>
      ∃ raw, Indexed config node next raw position ∧ ∀ reckoning n k, Worth reckoning raw k →
        ∀ spot ∈ position.spot? config n k,
          Addresses next.helpers.realized reckoning text n .text code spot := by
  cases position with
  | first =>
    refine Gives.pure ⟨_, rfl, fun reckoning n k hk spot hspot => ?_⟩
    rw [spot_first hk hspot]
    exact .direct .firstLetter
  | fromStart =>
    refine (gives_atStart hindent hsession hdoubles).bind hsession
      fun index later hlater hindex => ?_
    obtain ⟨raw, hraw, hworth⟩ := hindex
    refine Gives.pure ⟨raw, hraw, fun reckoning n k hk spot hspot => ?_⟩
    obtain rfl := Option.some.inj hspot
    exact .direct (.letter (hworth reckoning k hk))
  | last =>
    refine (gives_askHelper "text_get_from_end" letterFromEndTemplate).bind hsession
      fun helper later _ hmem => ?_
    refine Gives.pure ⟨_, rfl, fun reckoning n k hk spot hspot => ?_⟩
    have hcode : s!"{helper}({text}, 1)" = helper ++ "(" ++ text ++ ", " ++ "1" ++ ")" := by
      rw [← String.toList_inj]
      simp [toString]
    rw [spot_last hk hspot, hcode]
    exact addresses_fromEnd hmem .text (locates_letterFromEnd n)
      ((denotes_toString 1).worth (by decide) reckoning)
  | fromEnd =>
    exact gives_throughHelper hindent hsession hdoubles
      (fun helper back => s!"{helper}({text}, {back})") pure
      (fun _ _ => rfl) .text locates_letterFromEnd fun code last hcode => Gives.pure hcode
  | random =>
    refine (gives_any _).mono fun code next _ => ?_
    exact ⟨_, rfl, fun reckoning n k hk spot hspot => by simp [Position.spot?] at hspot⟩

theorem gives_letterAt {position : Position} (hposition : positionOf node = some position) :
    Gives config node (letterAt config node) session fun emission next =>
      ∃ code, Rendered config node next "VALUE" emptyText code ∧
        Agrees config node next .text code position emission := by
  unfold letterAt
  rw [hposition]
  refine (gives_valueOr hindent hsession "VALUE" _ atom_emptyText).bind hsession
    fun text between hbetween htext => ?_
  refine (gives_letterCode hindent hbetween.toNamed hdoubles text position).bind hbetween.toNamed
    fun code last hlast hcode => ?_
  obtain ⟨raw, hraw, haddress⟩ := hcode
  exact Gives.pure ⟨text, htext.1.later hlast, ⟨text, ""⟩, raw, .inl rfl, hraw,
    fun reckoning n k _ hk spot hspot =>
    .value rfl (haddress reckoning n k hk spot hspot)⟩

end

/-! ### Lists -/

theorem gives_cache (hsession : Named session) (code name : String) :
    Gives config node (cache code name) session fun owner _ =>
      Binds code owner ∧ Text.isWord owner.expr = true := by
  unfold cache Script.cache
  split
  · rename_i hword
    exact Gives.pure ⟨.inl rfl, hword⟩
  · intro owner next hrun
    obtain ⟨rfl, rfl⟩ := EStateM.Result.ok.inj hrun
    have hname := (hsession.fresh name).1
    exact ⟨.inr ⟨_, hname, rfl⟩, hname.isWord⟩

theorem Binds.operand {code : String} {owner : Cached} (h : Binds code owner)
    (hcode : Operand .unaryPostfix code.toList) : Operand .unaryPostfix owner.expr.toList := by
  rcases h with rfl | ⟨word, hword, rfl⟩
  · exact hcode
  · exact hword.atom.operand .unaryPostfix

section

variable {list : String} (hindent : IsIndent config.indentUnit.toList) (hsession : Named session)
  (hdoubles : ∀ inner, node.input "AT" = some inner → OfDoubles inner)

include hindent hsession hdoubles

theorem gives_accessDirect (access : Access) {position : Position}
    (hlist : Operand .unaryPostfix list.toList)
    (hword : position = .fromEnd → Text.isWord list = true) :
    Gives config node (accessDirect config access position list) session fun emission next =>
      Agrees config node next .list list position emission := by
  cases position with
  | first =>
    refine Gives.pure ⟨⟨list, ""⟩, _, .inl rfl, rfl, fun reckoning n k _ hk spot hspot => ?_⟩
    rw [spot_first hk hspot]
    exact touches_accessAt access ((denotes_toString 0).worth (by decide) reckoning)
  | last =>
    refine Gives.pure ⟨⟨list, ""⟩, _, .inl rfl, rfl, fun reckoning n k _ hk spot hspot => ?_⟩
    rw [spot_last hk hspot]
    split
    · exact .value rfl (.direct .last)
    · exact touches_removal access (.direct .popped)
  | fromStart =>
    refine (gives_atStart hindent hsession hdoubles).bind hsession
      fun index later hlater hindex => ?_
    obtain ⟨raw, hraw, hworth⟩ := hindex
    refine Gives.pure ⟨⟨list, ""⟩, raw, .inl rfl, hraw, fun reckoning n k _ hk spot hspot => ?_⟩
    obtain rfl := Option.some.inj hspot
    exact touches_accessAt access (hworth reckoning k hk)
  | fromEnd =>
    refine (gives_atEnd hindent hsession hdoubles .additive).bind hsession
      fun back later hlater hback => ?_
    obtain ⟨raw, hraw, hworth⟩ := hback
    refine Gives.pure ⟨⟨list, ""⟩, raw, .inl rfl, hraw,
      fun reckoning n k hlength hk spot hspot => ?_⟩
    obtain ⟨amount, hdenotes, hvalue⟩ := hworth reckoning k hk
    rw [spot_fromEnd hvalue hspot]
    exact touches_accessAt access (worth_fromEnd hlist (hlength (hword rfl)) hdenotes)
  | random => exact (gives_any _).mono fun _ _ _ => agrees_random

/-- A value of the list that is accessed through a helper. -/
theorem gives_valueThroughHelper {key template passed : String}
    {inner : Holder} (call : String → String → String)
    (hcall : ∀ helper back, call helper back = s!"{helper}({passed}, {back})")
    (hpasses : Passes list .list passed inner) (hlocates : ∀ n, Locates template inner n (n - ·)) :
    Gives config node (atEnd config .none >>= fun back =>
      .askHelper key template >>= fun helper =>
        pure (.value (call helper back) .unaryPostfix)) session
      fun emission next => Agrees config node next .list list .fromEnd emission := by
  refine gives_throughHelper hindent hsession hdoubles call
    (fun code => pure (Emission.value code .unaryPostfix)) hcall
    hpasses hlocates fun code last hcode => ?_
  obtain ⟨raw, hraw, haddress⟩ := hcode
  exact Gives.pure ⟨⟨list, ""⟩, raw, .inl rfl, hraw, fun reckoning n k _ hk spot hspot =>
    .value rfl (haddress reckoning n k hk spot hspot)⟩

theorem gives_removeCached (hlist : Operand .unaryPostfix list.toList) :
    Gives config node (accessComputed config .remove .fromEnd list) session fun emission next =>
      Agrees config node next .list list .fromEnd emission := by
  refine (gives_atEnd hindent hsession hdoubles .additive).bind hsession
    fun back later hlater hback => ?_
  obtain ⟨raw, hraw, hworth⟩ := hback
  refine (gives_cache hlater.toNamed list "tmp_list").bind hlater.toNamed
    fun owner last hlast howner => ?_
  refine Gives.pure ⟨owner, raw, howner.1, hraw.later hlast,
    fun reckoning n k hlength hk spot hspot => ?_⟩
  obtain ⟨amount, hdenotes, hvalue⟩ := hworth reckoning k hk
  have hindex := worth_fromEnd (howner.1.operand hlist) (hlength howner.2) hdenotes
  have hremoved : s!"{owner.expr}.orderedRemove({owner.expr}.items.len - {back})" =
      owner.expr ++ ".orderedRemove(" ++ s!"{owner.expr}.items.len - {back}" ++ ")" := by
    rw [← String.toList_inj]
    simp [toString]
  have hstatement : ∀ code : String,
      s!"{owner.setup}_ = {code};\n" = owner.setup ++ s!"_ = {code};\n" := by
    intro code
    rw [← String.toList_inj]
    simp [toString]
  rw [spot_fromEnd hvalue hspot, hstatement, hremoved]
  exact .dropped (.direct (.removed hindex))

theorem gives_accessComputed (access : Access) {position : Position}
    (hlist : Operand .unaryPostfix list.toList) (htwice : usesTwice access position = true) :
    Gives config node (accessComputed config access position list) session fun emission next =>
      Agrees config node next .list list position emission := by
  by_cases hrandom : position = .random
  · rw [hrandom]
    exact (gives_any _).mono fun _ _ _ => agrees_random
  · obtain rfl : position = .fromEnd := by simpa [usesTwice, hrandom] using htwice
    cases access with
    | remove => exact gives_removeCached hindent hsession hdoubles hlist
    | get =>
      refine gives_valueThroughHelper hindent hsession hdoubles
        (fun helper back => s!"{helper}({list}.items, {back})") (fun helper back => ?_) .items
        locates_itemFromEnd
      rw [← String.toList_inj]
      simp [toString]
    | getRemove =>
      refine gives_valueThroughHelper hindent hsession hdoubles
        (fun helper back => s!"{helper}(&{list}, {back})") (fun helper back => ?_) .reference
        locates_removeFromEnd
      rw [← String.toList_inj]
      simp [toString]

theorem gives_getItem {position : Position} (hposition : positionOf node = some position) :
    Gives config node (getItem config node) session fun emission next =>
      ∃ code, Rendered config node next "VALUE" newList code ∧
        Agrees config node next .list code position emission := by
  unfold getItem
  refine (gives_choose "MODE" _).bind hsession fun access _ hfirst _ => ?_
  refine (gives_choose "WHERE" _).bind hfirst.toNamed fun chosen _ hsecond hchosen => ?_
  obtain rfl : position = chosen := Option.some.inj (hposition.symm.trans hchosen)
  refine (gives_listOr hindent hsecond.toNamed "VALUE").bind hsecond.toNamed
    fun list between hthird hlist => ?_
  have haccess : Gives config node (if usesTwice access position && !Text.isWord list then
      accessComputed config access position list
      else accessDirect config access position list) between
      fun emission next => Agrees config node next .list list position emission := by
    split
    · rename_i hcomputed
      rw [Bool.and_eq_true] at hcomputed
      exact gives_accessComputed hindent hthird.toNamed hdoubles access hlist.2 hcomputed.1
    · rename_i hdirect
      refine gives_accessDirect hindent hthird.toNamed hdoubles access hlist.2 ?_
      rintro rfl
      simpa [usesTwice] using hdirect
  intro emission last hrun
  exact ⟨list, hlist.1.later (later_of_ask hthird.toNamed hrun), haccess emission last hrun⟩

/-! ### Lists that are written to -/

omit hindent hdoubles in
theorem gives_writable (insert : Bool) (position : Position) (list : String) :
    Gives config node (writable insert position list) session fun owner _ =>
      Binds list owner ∧ (position = .fromEnd ∨ position = .last ∧ insert = false →
        Text.isWord owner.expr = true) := by
  cases position with
  | first => exact Gives.pure ⟨.inl rfl, by simp⟩
  | fromStart => exact Gives.pure ⟨.inl rfl, by simp⟩
  | last =>
    cases insert with
    | true => exact Gives.pure ⟨.inl rfl, by simp⟩
    | false => exact (gives_cache hsession list "tmp_list").mono fun _ _ h => ⟨h.1, fun _ => h.2⟩
  | fromEnd => exact (gives_cache hsession list "tmp_list").mono fun _ _ h => ⟨h.1, fun _ => h.2⟩
  | random => exact (gives_cache hsession list "tmp_list").mono fun _ _ h => ⟨h.1, fun _ => h.2⟩

theorem gives_writeItem {insert : Bool} {position : Position}
    (hlast : ¬(insert = true ∧ position = .last)) {owner : Cached}
    (howner : Operand .unaryPostfix owner.expr.toList) (value : String)
    (hword : position = .fromEnd ∨ position = .last ∧ insert = false →
      Text.isWord owner.expr = true) :
    Gives config node (writeItem config insert position owner.expr value) session fun code next =>
      ∃ raw, Indexed config node next raw position ∧ ∀ reckoning n k,
        (Text.isWord owner.expr = true → Worth reckoning (Holder.list.length owner.expr) n) →
        Worth reckoning raw k →
          ∀ spot ∈ position.spot? config n k,
            Touches next.helpers.realized reckoning owner n .list
            (.statement (owner.setup ++ code)) spot := by
  cases position with
  | first =>
    refine Gives.pure ⟨_, rfl, fun reckoning n k _ hk spot hspot => ?_⟩
    rw [spot_first hk hspot]
    exact touches_writeAt insert owner value ((denotes_toString 0).worth (by decide) reckoning)
  | last =>
    obtain rfl : insert = false := by simpa using hlast
    refine Gives.pure ⟨_, rfl, fun reckoning n k hlength hk spot hspot => ?_⟩
    have hone : Denotes (reach .additive) "1" (.whole 1) :=
      (denotes_toString 1).mono (Nat.zero_le _)
    have hindex := worth_fromEnd howner (hlength (hword (.inr ⟨rfl, rfl⟩))) hone
    have hcode : s!"{owner.expr}.items.len - 1" = owner.expr ++ ".items.len - " ++ "1" := by
      rw [← String.toList_inj]
      simp [toString]
    rw [spot_last hk hspot, if_neg Bool.false_ne_true, hcode]
    exact touches_writeAt false owner value hindex
  | fromStart =>
    refine (gives_atStart hindent hsession hdoubles).bind hsession
      fun index later hlater hindex => ?_
    obtain ⟨raw, hraw, hworth⟩ := hindex
    refine Gives.pure ⟨raw, hraw, fun reckoning n k _ hk spot hspot => ?_⟩
    obtain rfl := Option.some.inj hspot
    exact touches_writeAt insert owner value (hworth reckoning k hk)
  | fromEnd =>
    refine (gives_atEnd hindent hsession hdoubles .additive).bind hsession
      fun back later hlater hback => ?_
    obtain ⟨raw, hraw, hworth⟩ := hback
    refine Gives.pure ⟨raw, hraw, fun reckoning n k hlength hk spot hspot => ?_⟩
    obtain ⟨amount, hdenotes, hvalue⟩ := hworth reckoning k hk
    rw [spot_fromEnd hvalue hspot]
    exact touches_writeAt insert owner value
      (worth_fromEnd howner (hlength (hword (.inl rfl))) hdenotes)
  | random =>
    exact (gives_any _).mono fun _ _ _ =>
      ⟨_, rfl, fun _ _ _ _ _ spot hspot => by simp [Position.spot?] at hspot⟩

theorem gives_setItem {position : Position} (hposition : positionOf node = some position)
    (hlast : ¬(inserts? (optionOr node "MODE" "SET") = some true ∧ position = .last)) :
    Gives config node (setItem config node) session fun emission next =>
      ∃ code, Rendered config node next "LIST" newList code ∧
        Agrees config node next .list code position emission := by
  unfold setItem
  refine (gives_choose "MODE" _).bind hsession fun insert _ hfirst hinsert => ?_
  rw [hinsert, Option.some.injEq] at hlast
  refine (gives_choose "WHERE" _).bind hfirst.toNamed fun chosen _ hsecond hchosen => ?_
  obtain rfl : position = chosen := Option.some.inj (hposition.symm.trans hchosen)
  refine (gives_listOr hindent hsecond.toNamed "LIST").bind hsecond.toNamed
    fun list _ hthird hlist => ?_
  refine (gives_valueOr hindent hthird.toNamed "TO" .assignment atom_zero).bind hthird.toNamed
    fun value _ hfourth _ => ?_
  refine (gives_writable hfourth.toNamed insert position list).bind hfourth.toNamed
    fun owner _ hfifth howner => ?_
  refine (gives_writeItem hindent hfifth.toNamed hdoubles hlast (howner.1.operand hlist.2) value
    howner.2).bind hfifth.toNamed fun code _ hsixth hcode => ?_
  obtain ⟨raw, hraw, htouches⟩ := hcode
  refine Gives.pure ⟨list, hlist.1.later ?_, owner, raw, howner.1, hraw, htouches⟩
  exact hfourth.trans (hfifth.trans hsixth)

end

/-! ### All accesses -/

/-- The slot of what has the elements that a node accesses, and what stands for it if
it is empty. -/
def ownerSlot? : String → Option (String × String × Holder)
  | "lists_getIndex" => some ("VALUE", newList, .list)
  | "lists_setIndex" => some ("LIST", newList, .list)
  | "text_charAt" => some ("VALUE", emptyText, .text)
  | _ => none

/-- Elements that are read, removed, written or inserted are counted alike. Only what is inserted at
the end is not inserted before the last element. -/
theorem element_accesses_agree_on_positions (hindent : IsIndent config.indentUnit.toList)
    (hreach : Reachable (setting config) session) {slot fallback : String}
    {holder : Holder} (howner : ownerSlot? node.kind = some (slot, fallback, holder))
    (hdoubles : ∀ inner, node.input "AT" = some inner → OfDoubles inner)
    {position : Position} (hposition : positionOf node = some position)
    (hlast : ¬(node.kind = "lists_setIndex" ∧ inserts? (optionOr node "MODE" "SET") = some true ∧
      position = .last)) {emission : Emission}
    (h : (node.offer (setting config)).emission session = .ok emission next) :
    (∀ reckoning, Worth reckoning (firstIndex config) (base config)) ∧
      ∃ code, Rendered config node next slot fallback code ∧
        Agrees config node next holder code position emission := by
  have hsession := named_of_reachable hreach
  refine ⟨fun reckoning => ?_, ?_⟩
  · have hfirst := (denotes_firstIndex config).worth (Nat.zero_le _) reckoning
    rwa [worth_firstIndex hfirst] at hfirst
  · unfold ownerSlot? at howner
    split at howner <;> rename_i hkind
    · obtain ⟨rfl, rfl, rfl⟩ := howner
      rw [emission_of_kind hkind ((find?_catalog (by decide)).trans rfl)] at h
      exact gives_getItem hindent hsession hdoubles hposition _ _ h
    · obtain ⟨rfl, rfl, rfl⟩ := howner
      rw [emission_of_kind hkind ((find?_catalog (by decide)).trans rfl)] at h
      exact gives_setItem hindent hsession hdoubles hposition
        (fun hboth => hlast ⟨hkind, hboth⟩) _ _ h
    · obtain ⟨rfl, rfl, rfl⟩ := howner
      rw [emission_of_kind hkind ((find?_catalog (by decide)).trans rfl)] at h
      exact gives_letterAt hindent hsession hdoubles hposition _ _ h
    · cases howner

/-- The fifth letter of a text, from its end. -/
def fifthFromEnd : Node :=
  { kind := "text_charAt", fields := [("WHERE", .text "FROM_END")],
    inputs := [("AT", { kind := "math_number", fields := [("NUM", .number five)] })] }

theorem ofDoubles_five :
    OfDoubles { kind := "math_number", fields := [("NUM", .number five)] } := by
  intro each heach number hnumber
  obtain rfl := List.mem_singleton.mp heach
  obtain rfl : five = number := Option.some.inj hnumber
  exact ⟨by decide, by decide, by decide, .inl (by decide)⟩

theorem exists_emission_fifthFromEnd :
    ∃ emission next,
      (fifthFromEnd.offer (setting {})).emission (setting {}).session = .ok emission next := by
  have hposition : positionOf fifthFromEnd = some .fromEnd := by decide
  have hvalue : (setting {}).ask fifthFromEnd
      (.valueOr "VALUE" (letterRank (some .fromEnd)) emptyText)
      (setting {}).session = .ok emptyText (setting {}).session := rfl
  have hindex : (setting {}).ask fifthFromEnd (atEnd {} .none) (setting {}).session =
      .ok "5" (setting {}).session := by
    rw [atEnd, ask_index]
    exact Synth.bind_of_ok (slotCode_fifth {} _ _) _
  rw [emission_of_kind rfl ((find?_catalog (by decide)).trans rfl)]
  show ∃ emission next,
    (setting {}).ask fifthFromEnd (letterAt {} fifthFromEnd) _ = .ok emission next
  rw [letterAt, hposition, Setting.ask_bind, Synth.bind_of_ok hvalue, letterCode, Setting.ask_bind,
    Setting.ask_bind, bind_assoc, Synth.bind_of_ok hindex]
  exact ⟨_, _, rfl⟩

theorem fifth_letter_from_the_end_agrees :
    OfDoubles { kind := "math_number", fields := [("NUM", .number five)] } ∧
    ∃ emission next,
      (fifthFromEnd.offer (setting {})).emission (setting {}).session = .ok emission next ∧
      ∃ code, Rendered {} fifthFromEnd next "VALUE" emptyText code ∧
        Agrees {} fifthFromEnd next .text code .fromEnd emission := by
  obtain ⟨emission, next, h⟩ := exists_emission_fifthFromEnd
  have hdoubles : ∀ inner, fifthFromEnd.input "AT" = some inner → OfDoubles inner := by
    intro inner hinner
    obtain rfl := Option.some.inj hinner
    exact ofDoubles_five
  refine ⟨ofDoubles_five, emission, next, h, ?_⟩
  exact (element_accesses_agree_on_positions (by decide) .start rfl hdoubles
    (by decide) (by decide) h).2

end BlockSynth.Zig
