import BlockSynth.Proofs.Zig.Count
import BlockSynth.Proofs.Zig.Ranges

/-! # Slices in unsigned numbers

A slicing helper works out the last position of a part and goes one further at the
end. In unsigned numbers there is no last position of a part that ends in front of all
elements, although the slice in place is fine.
-/
namespace BlockSynth.Zig

variable {config : Config} {n a a1 a2 low high : Int} {start : SliceStart} {finish : SliceEnd}

/-! ### Bounds -/

theorem keep_unsigned {value kept : Int} :
    Computing.unsigned.keep value = some kept ↔ 0 ≤ value ∧ kept = value := by
  simp [Computing.keep, eq_comm]

theorem keep_pred (value : Int) :
    Computing.unsigned.keep (value - 1) = if 0 < value then some (value - 1) else none := by
  by_cases hpositive : 0 < value
  · rw [if_pos hpositive, Computing.keep_of_nonneg (by omega)]
  · rw [if_neg hpositive, Computing.keep_unsigned_of_neg (by omega)]

theorem range_unsigned {lower upper : Option Int} :
    Computing.unsigned.range n lower upper = some (low, high) ↔
      lower = some low ∧ upper = some high ∧ 0 ≤ low ∧ low ≤ high ∧ high ≤ n := by
  cases lower with
  | none => simp [Computing.range]
  | some first =>
    cases upper with
    | none => simp [Computing.range]
    | some last =>
      simp only [Computing.range, Option.bind_eq_bind, Option.bind_some,
        Option.ite_none_right_eq_some, Option.some.injEq, Prod.mk.injEq]
      constructor
      · rintro ⟨hbounds, rfl, rfl⟩
        exact ⟨rfl, rfl, hbounds⟩
      · rintro ⟨rfl, rfl, hbounds⟩
        exact ⟨hbounds, rfl, rfl⟩

/-- What is counted from the last position in a helper is counted from the length in place. -/
theorem back_unsigned {position : Int} (hn : 0 ≤ n) (hposition : 0 ≤ position) :
    Computing.unsigned.back n position = Computing.unsigned.keep (n - position - 1) := by
  unfold Computing.back
  rw [Computing.keep_of_nonneg hn]
  show Computing.unsigned.keep (n - 1) >>= _ = _
  by_cases hlength : 0 < n
  · rw [Computing.keep_of_nonneg (by omega)]
    exact congrArg Computing.unsigned.keep (show n - 1 - position = n - position - 1 by omega)
  · rw [Computing.keep_unsigned_of_neg (by omega), Computing.keep_unsigned_of_neg (by omega)]
    rfl

/-- An index that is not below the first one starts a part in the helper where it does in place. -/
theorem SliceStart.called_of_placed (ha : base config ≤ a)
    (hn : 0 ≤ n) (h : start.placed .unsigned config n a = some low) :
    start.called .unsigned n (a - base config) = some low := by
  cases start with
  | fromStart => exact congrArg some (keep_unsigned.mp h).2.symm
  | fromEnd =>
    obtain ⟨distance, hdistance, hlow⟩ := Option.bind_eq_some_iff.mp h
    obtain ⟨-, rfl⟩ := keep_unsigned.mp hdistance
    show Computing.unsigned.back n (a - base config) = some low
    rw [back_unsigned hn (by omega), ← hlow]
    exact congrArg Computing.unsigned.keep (by omega)
  | first => exact h

/-- A helper has a last position unless the part ends in front of all elements. -/
theorem SliceEnd.called_of_placed (ha : base config ≤ a) (hn : 0 ≤ n)
    (h : finish.placed .unsigned config n a = some high) :
    finish.called .unsigned n (a - base config) = if 0 < high then some (high - 1) else none := by
  cases finish with
  | fromStart =>
    obtain ⟨-, rfl⟩ := keep_unsigned.mp h
    rw [if_pos (by omega)]
    exact congrArg some (by omega)
  | fromEnd =>
    obtain ⟨distance, hdistance, hhigh⟩ := Option.bind_eq_some_iff.mp h
    obtain ⟨-, rfl⟩ := keep_unsigned.mp hdistance
    obtain ⟨-, rfl⟩ := keep_unsigned.mp hhigh
    exact (back_unsigned hn (by omega)).trans (keep_pred _)
  | last =>
    obtain rfl := Option.some.inj h
    show Computing.unsigned.keep n >>= (fun length => Computing.unsigned.keep (length - 1)) = _
    rw [Computing.keep_of_nonneg hn]
    exact keep_pred n

/-- Where the slice in place is fine, the helper selects the same, unless an index is below the
first one or the part ends in front of all elements. -/
theorem range_called_of_placed
    (h : Cut.placed.range .unsigned config n start a1 finish a2 = some (low, high)) :
    Cut.called.range .unsigned config n start a1 finish a2 =
      if base config ≤ a1 ∧ base config ≤ a2 ∧ 0 < high then some (low, high) else none := by
  obtain ⟨hlow, hhigh, hbounds⟩ := range_unsigned.mp h
  have hn : 0 ≤ n := by omega
  unfold Cut.range
  by_cases ha1 : base config ≤ a1
  case neg =>
    rw [Computing.keep_unsigned_of_neg (by omega), if_neg fun hall => ha1 hall.1]
    rfl
  by_cases ha2 : base config ≤ a2
  case neg =>
    rw [Computing.keep_of_nonneg (by omega), Computing.keep_unsigned_of_neg (by omega),
      if_neg fun hall => ha2 hall.2.1]
    rfl
  simp only [Computing.keep_of_nonneg (show 0 ≤ a1 - base config by omega),
    Computing.keep_of_nonneg (show 0 ≤ a2 - base config by omega),
    Option.bind_eq_bind, Option.bind_some, SliceStart.called_of_placed ha1 hn hlow,
    SliceEnd.called_of_placed ha2 hn hhigh, ha1, ha2, true_and]
  by_cases hpositive : 0 < high
  · rw [if_pos hpositive, if_pos hpositive, Option.bind_some, Int.sub_add_cancel,
      Computing.keep_of_nonneg (Int.le_of_lt hpositive)]
    exact range_unsigned.mpr ⟨rfl, rfl, hbounds⟩
  · rw [if_neg hpositive, if_neg hpositive]
    rfl

/-! ### Nodes -/

/-- A node that emits a part of what is in its slot, from one of its ends to the other. -/
structure EmitsPart (config : Config) (slot fallback : String) (holder : Holder)
    (start : SliceStart) (finish : SliceEnd) (node : Node) (emission : Emission)
    (next : Session) : Prop where
  owner : partSlot? node.kind = some (slot, fallback, holder)
  start : sliceStart? (optionOr node "WHERE1" "FROM_START") = some start
  finish : sliceEnd? (optionOr node "WHERE2" "FROM_START") = some finish
  doubles : ∀ slot ∈ ["AT1", "AT2"], ∀ inner, node.input slot = some inner → OfDoubles inner
  emitted : ∃ session, Reachable (setting config) session ∧
    (node.offer (setting config)).emission session = .ok emission next

section

variable {slot fallback owner : String} {holder : Holder} {node plain computed : Node}
  {emission emission' : Emission} {next next' : Session}

theorem EmitsPart.parts (hindent : IsIndent config.indentUnit.toList)
    (h : EmitsPart config slot fallback holder start finish node emission next) :
    Named next ∧ ∃ owner, Rendered config node next slot fallback owner ∧
      Parts config node next holder owner start finish emission := by
  obtain ⟨session, hreach, hrun⟩ := h.emitted
  exact parts_of_emission hindent hreach h.owner h.doubles h.start h.finish hrun

/-- Only what is computed is handed to a helper, and only a text is emitted as a
whole, whatever its code. -/
theorem cut_cases (hrepeats : holder.repeats owner = true) (owner' : String) (start : SliceStart)
    (finish : SliceEnd) :
    holder.cut owner start finish = .whole ∧ holder.cut owner' start finish = .whole ∨
      holder.cut owner start finish = .placed ∧ holder.cut owner' start finish ≠ .whole := by
  unfold Holder.cut
  split
  · exact .inl ⟨rfl, rfl⟩
  · refine .inr ⟨if_pos (by rw [hrepeats, Bool.true_or]), ?_⟩
    split <;> decide

theorem range_placed_congr {a1' a2' : Int} (hstart : start ≠ .first → a1' = a1)
    (hfinish : finish ≠ .last → a2' = a2) :
    Cut.placed.range .unsigned config n start a1' finish a2' =
      Cut.placed.range .unsigned config n start a1 finish a2 := by
  have hlow : start.placed .unsigned config n a1' = start.placed .unsigned config n a1 := by
    cases start with
    | first => rfl
    | fromStart => rw [hstart (by decide)]
    | fromEnd => rw [hstart (by decide)]
  have hhigh : finish.placed .unsigned config n a2' = finish.placed .unsigned config n a2 := by
    cases finish with
    | last => rfl
    | fromStart => rw [hfinish (by decide)]
    | fromEnd => rw [hfinish (by decide)]
  rw [Cut.range, Cut.range, hlow, hhigh]

/-- What is emitted for computed code selects what is emitted for a word does, unless it calls a
helper with an index below the first one or for a part that ends in front of all elements. -/
theorem range_of_repeats {a1' a2' : Int} (hrepeats : holder.repeats owner = true)
    (owner' : String) (hstart : start ≠ .first → a1' = a1) (hfinish : finish ≠ .last → a2' = a2)
    (h : (holder.cut owner start finish).range .unsigned config n start a1 finish a2 =
      some (low, high)) :
    (holder.cut owner' start finish).range .unsigned config n start a1' finish a2' =
      if holder.cut owner' start finish = .called →
      base config ≤ a1' ∧ base config ≤ a2' ∧ 0 < high then
        some (low, high)
      else none := by
  rcases cut_cases hrepeats owner' start finish with ⟨hwhole, hwhole'⟩ | ⟨hplaced, hne⟩
  · rw [hwhole] at h
    rw [hwhole', if_pos (by simp)]
    exact h
  · rw [hplaced, ← range_placed_congr hstart hfinish] at h
    cases hcut : holder.cut owner' start finish with
    | whole => exact absurd hcut hne
    | placed => rw [h, if_pos (by simp)]
    | called => simp only [range_called_of_placed h, true_imp_iff]

/-- Where the slice of a word is fine in unsigned numbers, so is what is emitted for computed code
with the same indices and elements, unless it calls a helper with an index below the first one or
for a part that ends in front of all elements. -/
theorem helpers_fail_only_below_the_first_position (hindent : IsIndent config.indentUnit.toList)
    (hplain : EmitsPart config slot fallback holder start finish plain emission next)
    (hcomputed : EmitsPart config slot fallback holder start finish computed emission' next') :
    ∃ owner raw1 raw2 owner' raw1' raw2',
      Rendered config plain next slot fallback owner ∧ StartsAt config plain next start raw1 ∧
      EndsAt config plain next finish raw2 ∧ Rendered config computed next' slot fallback owner' ∧
      StartsAt config computed next' start raw1' ∧ EndsAt config computed next' finish raw2' ∧
      (holder.repeats owner = true →
        ∀ first second n a1 a2 low high,
          Indicates .unsigned first raw1 a1 → Indicates .unsigned second raw2 a2 →
          Computes .unsigned first (holder.length owner) (some n) →
          Computes .unsigned second (holder.length owner) (some n) →
          Selects next.helpers.realized .unsigned first second n owner holder emission
            (some (low, high)) →
          ∀ first' second' a1' a2',
            Indicates .unsigned first' raw1' a1' → Indicates .unsigned second' raw2' a2' →
            (start ≠ .first → a1' = a1) → (finish ≠ .last → a2' = a2) →
            let outcome := if holder.cut owner' start finish = .called →
              base config ≤ a1' ∧ base config ≤ a2' ∧ 0 < high then some (low, high) else none
            Selects next'.helpers.realized .unsigned first' second' n owner' holder emission'
              outcome ∧
              (Computes .unsigned first' (holder.length owner') (some n) →
                Computes .unsigned second' (holder.length owner') (some n) →
                ∀ other,
                  Selects next'.helpers.realized .unsigned first' second' n owner' holder emission'
                    other →
                  other = outcome)) := by
  obtain ⟨hnamed, owner, howner, raw1, raw2, hraw1, hraw2, hselects⟩ := hplain.parts hindent
  obtain ⟨hnamed', owner', howner', raw1', raw2', hraw1', hraw2', hselects'⟩ :=
    hcomputed.parts hindent
  refine ⟨owner, raw1, raw2, owner', raw1', raw2', howner, hraw1, hraw2, howner',
    hraw1', hraw2', ?_⟩
  intro hrepeats first second n a1 a2 low high ha1 ha2 hfirst hsecond hrange first' second' a1' a2'
    ha1' ha2' hstart hfinish outcome
  have hword :=
    (hselects .unsigned first second n a1 a2 ha1 ha2).unique hnamed.realized hfirst hsecond hrange
  have hcode := hselects' .unsigned first' second' n a1' a2' ha1' ha2'
  rw [range_of_repeats hrepeats owner' hstart hfinish hword] at hcode
  exact ⟨hcode, fun hfirst' hsecond' other hother =>
    hother.unique hnamed'.realized hfirst' hsecond' hcode⟩

/-- All of a list. -/
def allOf (inputs : List (String × Node)) : Node :=
  { kind := "lists_getSublist",
    fields := [("WHERE1", .text "FIRST"), ("WHERE2", .text "LAST")], inputs }

def listed : Node :=
  allOf [("LIST", variableNode "xs")]

/-- All of a new list. -/
def made : Node :=
  allOf []

/-- A slot with a variable is rendered as its identifier. -/
theorem Rendered.lookup_of_variable {text name : String}
    {inner : Node} (h : Rendered config node next slot fallback text)
    (hslot : node.inputs.lookup slot = some inner) (hget : GetsVariable inner name) :
    next.names.lookup .variable name = some text := by
  obtain ⟨place, before, code, after, hrun, hlater, rfl⟩ := h
  rw [slotCode_of_lookup hslot, value_offer, hget.enabled, if_neg Bool.false_ne_true,
    Synth.bind_of_ok (emission_variable hget before)] at hrun
  obtain ⟨rfl, rfl⟩ := EStateM.Result.ok.inj hrun
  have hlookup := hlater.grown _ _ _ (Registry.lookup_resolve before.names .variable name)
  have hword : IsName (before.resolve .variable name).1 :=
    hlater.names.resolved _ (Keyed.mem_of_lookup hlookup)
  rw [if_neg (denotes_word hword).ne_empty]
  have hwrap : wrap place .atomic (before.resolve .variable name).1 =
      (before.resolve .variable name).1 :=
    if_neg (by simp [Rank.needsParens_atomic])
  rw [hwrap]
  exact hlookup

theorem ask_askValue (config : Config) (node : Node) (slot : String) (place : Rank) :
    (setting config).ask node (.askValue slot place) =
      slotCode config node slot place >>= pure := rfl

theorem ask_listOr {slot word : String} {session : Session}
    (h : slotCode config node slot .unaryPostfix session = .ok (some word) next) :
    (setting config).ask node (listOr slot) session = .ok word next := by
  rw [listOr, Setting.ask_bind, ask_askValue, bind_pure, Synth.bind_of_ok h]
  rfl

theorem emission_listed : ∃ word emission next, IsName word ∧
    (listed.offer (setting {})).emission (setting {}).session = .ok emission next ∧
    ∀ computing first second n,
      Selects next.helpers.realized computing first second n word .list emission
      (computing.range n (some 0) (some n)) := by
  obtain ⟨word, between, hslot, hword, hnamed, -⟩ := @slotCode_variable {} listed _ "LIST" _ _ rfl
    (getsVariable_variableNode "xs") (named_session {}) .unaryPostfix
  have hlist := ask_listOr hslot
  have hplaced : (Text.isWord word || lengthFree .first .last) = true := by
    rw [hword.isWord, Bool.true_or]
  let items := word ++ ".items"
  let low := "0"
  have hslice : (setting {}).ask listed (sliceInPlace {} items .first .last) between =
      .ok s!"{items}[{low}..]" between := rfl
  have hrange : ∀ computing first second n,
      Slices computing first second n items s!"{items}[{low}..]"
      (computing.range n (some 0) (some n)) := fun computing first second n =>
    .onwards (.index ((denotes_toString 0).mono (Nat.zero_le _)))
  obtain ⟨code, next, hcopy⟩ : ∃ code next,
      (setting {}).ask listed (copyItems s!"{items}[{low}..]") between = .ok code next :=
    ⟨_, _, rfl⟩
  obtain ⟨helper, rfl, hmem⟩ := gives_copyItems hnamed _ _ _ hcopy
  have hends : (setting {}).ask listed (sliceEnds listed) (setting {}).session =
      .ok (.first, .last) (setting {}).session := rfl
  refine ⟨word, _, next, hword, ?_, fun computing first second n =>
    .copied hmem (hrange computing first second n)⟩
  rw [emission_of_kind rfl ((find?_catalog (by decide)).trans rfl)]
  show (setting {}).ask listed (sublist {} listed) _ = _
  rw [sublist, Setting.ask_bind, Synth.bind_of_ok hends]
  show (setting {}).ask listed (listOr "LIST" >>= _) _ = _
  rw [Setting.ask_bind, Synth.bind_of_ok hlist, if_pos hplaced, Setting.ask_bind,
    Synth.bind_of_ok hslice, Setting.ask_bind, Synth.bind_of_ok hcopy]
  rfl

theorem exists_emission_made :
    ∃ emission next,
      (made.offer (setting {})).emission (setting {}).session = .ok emission next := by
  have hindices : ∀ slot ∈ ["AT1", "AT2"], ∀ session,
      ∃ code next,
        (setting {}).ask made (.index {} slot 0 false .none) session = .ok code next := by
    intro slot _ session
    exact exists_index_of_empty rfl session
  have hends : (setting {}).ask made (sliceEnds made) (setting {}).session =
      .ok (.first, .last) (setting {}).session := rfl
  have hlist : (setting {}).ask made (listOr "LIST") (setting {}).session = .ok newList _ := rfl
  have hrequire : ∀ session,
      (setting {}).ask made requireAllocator session = .ok () _ := fun _ => rfl
  have hcalled : ¬(Text.isWord newList || lengthFree .first .last) = true := by decide
  obtain ⟨code, next, hcode⟩ := exists_sliceThrough hindices "lists_get_sublist" sublistTemplate
    (newList ++ ".items") .first .last _
  rw [emission_of_kind rfl ((find?_catalog (by decide)).trans rfl)]
  show ∃ emission next, (setting {}).ask made (sublist {} made) _ = .ok emission next
  rw [sublist, Setting.ask_bind, Synth.bind_of_ok hends]
  show ∃ emission next, (setting {}).ask made (listOr "LIST" >>= _) _ = .ok emission next
  rw [Setting.ask_bind, Synth.bind_of_ok hlist, if_neg hcalled, Setting.ask_bind,
    Synth.bind_of_ok (hrequire _), Setting.ask_bind, Synth.bind_of_ok hcode]
  exact ⟨_, _, rfl⟩

theorem emitsPart_allOf {inputs : List (String × Node)}
    (hslots : ∀ slot ∈ ["AT1", "AT2"], inputs.lookup slot = none)
    (h : ((allOf inputs).offer (setting {})).emission (setting {}).session = .ok emission next) :
    EmitsPart {} "LIST" newList .list .first .last (allOf inputs) emission next where
  owner := rfl
  start := rfl
  finish := rfl
  doubles slot hslot inner hinner := by
    have hnone : (allOf inputs).input slot = none := hslots slot hslot
    rw [hnone] at hinner
    cases hinner
  emitted := ⟨_, .start, h⟩

theorem emitsPart_listed
    (h : (listed.offer (setting {})).emission (setting {}).session = .ok emission next) :
    EmitsPart {} "LIST" newList .list .first .last listed emission next := by
  unfold listed at h ⊢
  exact emitsPart_allOf (by decide) h

theorem emitsPart_made
    (h : (made.offer (setting {})).emission (setting {}).session = .ok emission next) :
    EmitsPart {} "LIST" newList .list .first .last made emission next := by
  unfold made at h ⊢
  exact emitsPart_allOf (by decide) h

theorem indicates_firstIndex (reckoning : Reckoning) :
    Indicates .unsigned reckoning (firstIndex {}) 1 :=
  .inl (by decide)

/-- Everything that is not worked out counts for nothing. -/
def vacant : Reckoning where
  unit _ := 0
  quotient := (· / ·)

theorem isUnit_newList :
    IsUnit [.word "std".toList, .dot, .word "ArrayList".toList, .opening '(', .word "f32".toList,
    .closing ')', .dot, .word "init".toList, .opening '(',
    .word "allocator".toList, .closing ')', .dot,
    .word "items".toList, .dot, .word "len".toList] := by
  have hlength : Suffixes [.dot, .word "items".toList, .dot, .word "len".toList] :=
    .field isPlain_items.lookup (.field isPlain_len.lookup .nil)
  have hallocator :=
    @Suffixes.group '(' ')' [.word "allocator".toList] _ (by decide) rfl (.word _ .nil) hlength
  have htype := @Suffixes.group '(' ')' [.word "f32".toList] _ (by decide) rfl (.word _ .nil)
    (.field (show operators.lookup (.word "init".toList) = none by decide) hallocator)
  exact .word (by decide) (.field (by decide) htype) (by simp)

theorem computes_length_newList {reckoning : Reckoning}
    (hn : 0 ≤ n) (h : ∀ code, reckoning.unit code = n) :
    Computes .unsigned reckoning (Holder.list.length newList) (some n) := by
  refine ⟨_, _, by decide +kernel, (Phrase.unit isUnit_newList).mono (Nat.zero_le _), ?_⟩
  show Computing.unsigned.keep (reckoning.unit _) = some n
  rw [h, Computing.keep_of_nonneg hn]

/-- Everything that is not worked out counts for two. -/
def paired : Reckoning where
  unit _ := 2
  quotient := (· / ·)

theorem computes_length_of_isName {word : String} (hword : IsName word) :
    Computes .unsigned paired (Holder.list.length word) (some 2) := by
  have hquoted : Chars.isQuotedWord '"' word.toList = true := isQuotedWord_of_isWord hword.isWord
  obtain ⟨length, toks, hlexes, hphrase⟩ := exists_denotes_items rfl (hword.atom.operand _) hquoted
  have htext : toString (word ++ ".items") ++ toString ".len" = Holder.list.length word := by
    rw [← String.toList_inj]
    simp [Holder.length, toString]
  rw [htext] at hlexes
  exact ⟨toks, _, hlexes.tokens_eq, hphrase.mono (Nat.zero_le _), rfl⟩

/-- The helper selects all of a list of two, as the slice in place does. -/
theorem all_of_a_list_of_two_is_selected_either_way :
    ∃ word emission next emission' next',
      EmitsPart {} "LIST" newList .list .first .last listed emission next ∧
      EmitsPart {} "LIST" newList .list .first .last made emission' next' ∧
      Rendered {} listed next "LIST" newList word ∧ Holder.list.repeats word = true ∧
      Computes .unsigned paired (Holder.list.length word) (some 2) ∧
      Computes .unsigned paired (Holder.list.length newList) (some 2) ∧
      Selects next.helpers.realized .unsigned paired paired 2 word .list emission (some (0, 2)) ∧
      ∀ outcome,
        Selects next'.helpers.realized .unsigned paired paired 2 newList .list emission' outcome ↔
        outcome = some (0, 2) := by
  obtain ⟨-, emission, next, -, hlisted, -⟩ := emission_listed
  obtain ⟨emission', next', hmade⟩ := exists_emission_made
  obtain ⟨owner, raw1, raw2, owner', raw1', raw2', howner, hraw1, hraw2, howner', hraw1',
      hraw2', hselects⟩ :=
    helpers_fail_only_below_the_first_position (by decide) (emitsPart_listed hlisted)
      (emitsPart_made hmade)
  obtain ⟨hnamed, word, hword, raw3, raw4, hraw3, hraw4, hwhole⟩ :=
    (emitsPart_listed hlisted).parts (by decide)
  obtain rfl := howner'.eq_fallback rfl
  obtain rfl := hraw1.eq_firstIndex rfl
  obtain rfl := hraw2.eq_firstIndex rfl
  obtain rfl := hraw1'.eq_firstIndex rfl
  obtain rfl := hraw2'.eq_firstIndex rfl
  obtain rfl := hraw3.eq_firstIndex rfl
  obtain rfl := hraw4.eq_firstIndex rfl
  have hlookup := howner.lookup_of_variable rfl (getsVariable_variableNode "xs")
  obtain rfl := Option.some.inj
    (hlookup.symm.trans (hword.lookup_of_variable rfl (getsVariable_variableNode "xs")))
  have hname : IsName owner := hnamed.names.resolved _ (Keyed.mem_of_lookup hlookup)
  have hrepeats : Holder.list.repeats owner = true := hname.isWord
  have hlength := computes_length_of_isName hname
  have hplain :=
    hwhole .unsigned paired paired 2 1 1 (indicates_firstIndex _) (indicates_firstIndex _)
  have hplaced : Holder.list.cut owner .first .last = .placed :=
    if_pos (by rw [hrepeats, Bool.true_or])
  rw [hplaced, show Cut.placed.range .unsigned {} 2 .first 1 .last 1 = some (0, 2)
    from by decide] at hplain
  obtain ⟨hcalled, hunique⟩ := hselects hrepeats paired paired 2 1 1 0 2 (indicates_firstIndex _)
    (indicates_firstIndex _) hlength hlength hplain paired paired 1 1 (indicates_firstIndex _)
    (indicates_firstIndex _) (fun h => absurd rfl h) fun h => absurd rfl h
  rw [if_pos (by decide)] at hcalled hunique
  have hlength' : Computes .unsigned paired (Holder.list.length newList) (some 2) :=
    computes_length_newList (by decide) fun _ => rfl
  refine ⟨owner, _, next, emission', next', emitsPart_listed hlisted, emitsPart_made hmade, howner,
    hrepeats, hlength, hlength', hplain, fun outcome => ⟨hunique hlength' hlength' outcome, ?_⟩⟩
  rintro rfl
  exact hcalled

/-- The helper works out the last position of an empty list, which a slice in place does without. -/
theorem all_of_an_empty_list_is_only_selected_in_place :
    ∃ word emission next emission' next', IsName word ∧
      (listed.offer (setting {})).emission (setting {}).session = .ok emission next ∧
      (made.offer (setting {})).emission (setting {}).session = .ok emission' next' ∧
      Selects next.helpers.realized .unsigned vacant vacant 0 word .list emission (some (0, 0)) ∧
      ∀ outcome,
        Selects next'.helpers.realized .unsigned vacant vacant 0 newList .list emission' outcome ↔
        outcome = none := by
  obtain ⟨word, emission, next, hword, hlisted, hselected⟩ := emission_listed
  obtain ⟨emission', next', hmade⟩ := exists_emission_made
  obtain ⟨hnamed, owner, howner, raw1, raw2, hraw1, hraw2, hselects⟩ :=
    (emitsPart_made hmade).parts (by decide)
  obtain rfl := howner.eq_fallback rfl
  obtain rfl := hraw1.eq_firstIndex rfl
  obtain rfl := hraw2.eq_firstIndex rfl
  have hnone :=
    hselects .unsigned vacant vacant 0 1 1 (indicates_firstIndex _) (indicates_firstIndex _)
  have hfails : (Holder.list.cut newList .first .last).range .unsigned {} 0 .first 1 .last
      1 = none := by decide
  rw [hfails] at hnone
  refine ⟨word, emission, next, emission', next', hword, hlisted, hmade,
    hselected .unsigned vacant vacant 0, fun outcome => ?_⟩
  refine ⟨fun houtcome => ?_, fun houtcome => houtcome ▸ hnone⟩
  have hlength : Computes .unsigned vacant (Holder.list.length newList) (some 0) :=
    computes_length_newList (by decide) fun _ => rfl
  exact houtcome.unique hnamed.realized hlength hlength hnone

end

end BlockSynth.Zig
