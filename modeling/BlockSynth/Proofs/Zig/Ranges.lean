import BlockSynth.Proofs.Zig.Element
import BlockSynth.Proofs.Zig.Slicer

/-! # Ranges of texts and lists

A part of a text or list is sliced in place or by a helper. What an emission selects
is read off its code; a helper is called with the tags of the two ends and with two
positions, which are expressions of their own.
-/
namespace BlockSynth.Zig

/-- A call of a slicing helper, and the range that it selects of `n` items. -/
inductive Calls (realized : List ((String × String) × String)) (computing : Computing)
    (first second : Reckoning) (n : Int) (key : String) (slicer : Slicer) (items : String) :
    String → Option (Int × Int) → Prop
  | call {helper at1 at2 : String} {start : SliceStart} {finish : SliceEnd} {lower upper : Amount} :
    ((key, slicer.template), helper) ∈ realized →
    Denotes sentence at1 lower → Denotes sentence at2 upper →
    Calls realized computing first second n key slicer items
      s!"{helper}({items}, {quote start.tag}, {at1}, {quote finish.tag}, {at2})" (do
        let lower ← lower.compute computing first
        let upper ← upper.compute computing second
        slicer.range computing n start.tag lower finish.tag upper)

/-- An emission of a part of an owner of `n` elements, and the range that it selects. -/
inductive Selects (realized : List ((String × String) × String))
    (computing : Computing) (first second : Reckoning) (n : Int) (owner : String) :
    Holder → Emission → Option (Int × Int) → Prop
  | whole : Selects realized computing first second n owner .text (.value owner .none) (some (0, n))
  | text {code : String} {outcome : Option (Int × Int)} : Slices
    computing first second n owner code outcome →
    Selects realized computing first second n owner .text (.value code .unaryPostfix) outcome
  | textCall {code : String} {outcome : Option (Int × Int)} :
    Calls realized computing first second n "text_get_substring" subtextSlicer owner code outcome →
    Selects realized computing first second n owner .text (.value code .unaryPostfix) outcome
  | copied {helper code : String} {outcome : Option (Int × Int)} :
    (("lists_create_with", copyTemplate), helper) ∈ realized →
    Slices computing first second n (owner ++ ".items") code outcome →
    Selects realized computing first second n owner .list
    (.value s!"try {helper}({code})" .unaryPrefix) outcome
  | listCall {code : String} {outcome : Option (Int × Int)} :
    Calls realized computing first second n "lists_get_sublist"
    sublistSlicer (owner ++ ".items") code outcome →
    Selects realized computing first second n owner .list
    (.value ("try " ++ code) .unaryPrefix) outcome

/-! ### Emissions are read in one way -/

section

variable {realized : List ((String × String) × String)} {computing : Computing}
    {first second : Reckoning} {n : Int}
  {key owner items code : String} {slicer : Slicer} {outcome other : Option (Int × Int)}

theorem halts_comma (level : Nat) (rest : List Token) : Halts level (.symbol [','] :: rest) :=
  ⟨rfl, fun operator hoperator => by cases hoperator⟩

/-- A comma behind an expression ends it in one way only. -/
theorem Denotes.split_comma {text text' : String} {rest rest' : List Char}
    {tree tree' : Amount} (h : Denotes sentence text tree) (h' : Denotes sentence text' tree')
    (hsame : text.toList ++ ',' :: rest = text'.toList ++ ',' :: rest') :
    text = text' ∧ rest = rest' := by
  have hnil : ∀ {text text' : String} {rest rest' : List Char} {tree tree' : Amount},
      Denotes sentence text tree →
      Denotes sentence text' tree' → ∀ more, text'.toList = text.toList ++ more →
      ',' :: rest = more ++ ',' :: rest' → more = [] := by
    rintro text text' rest rest' tree tree' ⟨toks, hlexes, hphrase⟩
      ⟨toks', hlexes', hphrase'⟩ more hmore hrest
    rcases List.cons_eq_append_iff.mp hrest with ⟨rfl, -⟩ | ⟨tail, rfl, -⟩
    · rfl
    have hall := hlexes.tokens_append (',' :: tail) fun c hc => Option.some.inj hc ▸ by decide
    have hcomma :=
      Mode.tokens_append (show Mode.code.run [','] = some ([.symbol [',']], .code) from rfl) tail
    rw [List.singleton_append] at hcomma
    rw [← hmore, hcomma, Option.map_map] at hall
    obtain ⟨toks'', -, hjoined⟩ := Option.map_eq_some_iff.mp (hall.symm.trans hlexes'.tokens_eq)
    have hsplit := hphrase'.split hphrase (halts_nil _) (halts_comma _ toks'')
      ((List.append_nil _).trans hjoined.symm)
    exact absurd hsplit.2 (List.cons_ne_nil _ _).symm
  obtain rfl := String.toList_inj.mp (eq_of_append_eq_append hsame (hnil h h') (hnil h' h))
  exact ⟨rfl, by simpa using hsame⟩

theorem Denotes.unique {text : String} {tree tree' : Amount} (h : Denotes sentence text tree)
    (h' : Denotes sentence text tree') : tree = tree' := by
  obtain ⟨toks, hlexes, hphrase⟩ := h
  obtain ⟨toks', hlexes', hphrase'⟩ := h'
  obtain rfl := Option.some.inj (hlexes.tokens_eq.symm.trans hlexes'.tokens_eq)
  exact hphrase.unique hphrase'

theorem split_mark {α : Type} {mark : α} {list other rest rest' : List α} (h : mark ∉ list)
    (h' : mark ∉ other) (hsame : list ++ mark :: rest = other ++ mark :: rest') :
    list = other ∧ rest = rest' := by
  have hnil : ∀ {list other rest rest' : List α}, mark ∉ other → ∀ more, other = list ++ more →
      mark :: rest = more ++ mark :: rest' → more = [] := by
    intro list other rest rest' hother more hmore hrest
    rcases List.cons_eq_append_iff.mp hrest with ⟨rfl, -⟩ | ⟨tail, rfl, -⟩
    · rfl
    · exact absurd (hmore ▸ List.mem_append_right _ List.mem_cons_self) hother
  obtain rfl := eq_of_append_eq_append hsame (hnil h') (hnil h)
  exact ⟨rfl, by simpa using hsame⟩

/-- What comes in front of the bracket of a call is its name. -/
theorem split_name {name name' : String} {rest rest' : List Char} (h : IsName name)
    (h' : IsName name') (hsame : name.toList ++ '(' :: rest = name'.toList ++ '(' :: rest') :
    name = name' ∧ rest = rest' := by
  have hbracket : ∀ {name : String}, IsName name → '(' ∉ name.toList := fun h hmem =>
    absurd (h.isPlain.isWordChar _ hmem) (by decide)
  obtain ⟨hlist, hrest⟩ := split_mark (hbracket h) (hbracket h') hsame
  exact ⟨String.toList_inj.mp hlist, hrest⟩

theorem SliceStart.split_tag {start start' : SliceStart} {rest rest' : List Char}
    (hsame : (quote start.tag).toList ++ ',' :: rest = (quote start'.tag).toList ++ ',' :: rest') :
    start = start' ∧ rest = rest' := by
  have hcomma : ∀ start : SliceStart, ',' ∉ (quote start.tag).toList := by
    intro start
    cases start <;> decide +kernel
  obtain ⟨hlist, hrest⟩ := split_mark (hcomma start) (hcomma start') hsame
  refine ⟨?_, hrest⟩
  cases start <;> cases start' <;> revert hlist <;> decide +kernel

theorem SliceEnd.split_tag {finish finish' : SliceEnd} {rest rest' : List Char}
    (hsame : (quote finish.tag).toList ++ ',' :: rest =
      (quote finish'.tag).toList ++ ',' :: rest') :
    finish = finish' ∧ rest = rest' := by
  have hcomma : ∀ finish : SliceEnd, ',' ∉ (quote finish.tag).toList := by
    intro finish
    cases finish <;> decide +kernel
  obtain ⟨hlist, hrest⟩ := split_mark (hcomma finish) (hcomma finish') hsame
  refine ⟨?_, hrest⟩
  cases finish <;> cases finish' <;> revert hlist <;> decide +kernel

theorem toList_call (helper items tag1 at1 tag2 at2 : String) :
    (s!"{helper}({items}, {tag1}, {at1}, {tag2}, {at2})").toList =
      helper.toList ++ '(' :: (items.toList ++ ',' :: ' ' :: (tag1.toList ++ ',' :: ' ' ::
        (at1.toList ++ ',' :: ' ' :: (tag2.toList ++ ',' :: ' ' :: (at2.toList ++ [')']))))) := by
  simp [toString]

/-- A call selects one range only. -/
theorem Calls.unique (hnames : ∀ entry ∈ realized, IsName entry.2)
    (h : Calls realized computing first second n key slicer items code outcome)
    (h' : Calls realized computing first second n key slicer items code other) :
    outcome = other := by
  generalize hcode : code = same at h'
  obtain ⟨hmem, hlower, hupper⟩ := h
  obtain ⟨hmem', hlower', hupper'⟩ := h'
  have hsame := congrArg String.toList hcode
  rw [toList_call, toList_call] at hsame
  obtain ⟨-, harguments⟩ := split_name (hnames _ hmem) (hnames _ hmem') hsame
  obtain ⟨rfl, hafter1⟩ :=
    SliceStart.split_tag (List.cons.inj (List.cons.inj (List.append_cancel_left harguments)).2).2
  obtain ⟨rfl, hbehind1⟩ := hlower.split_comma hlower' (List.cons.inj hafter1).2
  obtain ⟨rfl, hafter2⟩ := SliceEnd.split_tag (List.cons.inj hbehind1).2
  obtain rfl := String.toList_inj.mp (List.append_cancel_right (List.cons.inj hafter2).2)
  rw [hlower.unique hlower', hupper.unique hupper']

theorem Slices.exists_inner (h : Slices computing first second n items code outcome) :
    ∃ inner : List Char, code.toList = items.toList ++ '[' :: (inner ++ [']']) := by
  cases h with
  | @between low high _ _ _ _ => exact ⟨low.toList ++ '.' :: '.' :: high.toList, by simp [toString]⟩
  | @onwards low _ _ => exact ⟨low.toList ++ ['.', '.'], by simp [toString]⟩

/-- A slice ends with another bracket than a call. -/
theorem Slices.ne_call {same : String} (h : Slices computing first second n items code outcome)
    (h' : Calls realized computing first second n key slicer items same other) : code ≠ same := by
  rintro rfl
  obtain ⟨inner, hslice⟩ := h.exists_inner
  obtain ⟨front, hcall⟩ : ∃ front, code.toList = front ++ [')'] := by
    obtain ⟨-, -, -⟩ := h'
    exact ⟨_, String.toList_append⟩
  rw [hcall, ← List.cons_append, ← List.append_assoc] at hslice
  exact absurd (List.append_inj_right' hslice rfl) (by decide)

theorem toList_copy (helper code : String) :
    (s!"try {helper}({code})").toList =
      "try ".toList ++ (helper.toList ++ '(' :: (code.toList ++ [')'])) := by
  simp [toString]

/-- A copy has a bracket behind its items where a call has a comma. -/
theorem Slices.copy_ne_call {helper same : String} (hnames : ∀ entry ∈ realized, IsName entry.2)
    {template : String × String} (hmem : (template, helper) ∈ realized)
    (h : Slices computing first second n items code outcome)
    (h' : Calls realized computing first second n key slicer items same other) :
    s!"try {helper}({code})" ≠ "try " ++ same := by
  intro hsame
  obtain ⟨inner, hslice⟩ := h.exists_inner
  obtain ⟨hmem', -, -⟩ := h'
  have hlist := congrArg String.toList hsame
  rw [toList_copy, String.toList_append, toList_call, hslice] at hlist
  obtain ⟨-, hrest⟩ := split_name (hnames _ hmem) (hnames _ hmem') (List.append_cancel_left hlist)
  simp at hrest

/-- An emission selects one range only, if the length of the owner is reckoned as the
number of its elements. -/
theorem Selects.unique {holder : Holder} {emission : Emission}
    (hnames : ∀ entry ∈ realized, IsName entry.2)
    (hfirst : Computes computing first (holder.length owner) (some n))
    (hsecond : Computes computing second (holder.length owner) (some n))
    (h : Selects realized computing first second n owner holder emission outcome)
    (h' : Selects realized computing first second n owner holder emission other) :
    outcome = other := by
  generalize hsame : emission = same at h'
  cases h with
  | whole =>
    cases h' with
    | whole => rfl
    | text _ => simp at hsame
    | textCall _ => simp at hsame
  | text hslice =>
    cases h' with
    | whole => simp at hsame
    | text hslice' =>
      obtain rfl := (Emission.value.inj hsame).1
      exact hslice.unique hfirst hsecond hslice'
    | textCall hcall => exact absurd (Emission.value.inj hsame).1 (hslice.ne_call hcall)
  | textCall hcall =>
    cases h' with
    | whole => simp at hsame
    | text hslice => exact absurd (Emission.value.inj hsame).1.symm (hslice.ne_call hcall)
    | textCall hcall' =>
      obtain rfl := (Emission.value.inj hsame).1
      exact hcall.unique hnames hcall'
  | copied hmem hslice =>
    have hitems : ∀ items : String,
        items = owner ++ ".items" → s!"{items}.len" = Holder.list.length owner := by
      rintro items rfl
      rw [← String.toList_inj]
      simp [Holder.length, toString]
    cases h' with
    | copied hmem' hslice' =>
      have hlist := congrArg String.toList (Emission.value.inj hsame).1
      rw [toList_copy, toList_copy] at hlist
      obtain ⟨-, hrest⟩ :=
        split_name (hnames _ hmem) (hnames _ hmem') (List.append_cancel_left hlist)
      obtain rfl := String.toList_inj.mp (List.append_cancel_right hrest)
      rw [← hitems _ rfl] at hfirst hsecond
      exact hslice.unique hfirst hsecond hslice'
    | listCall hcall =>
      exact absurd (Emission.value.inj hsame).1 (hslice.copy_ne_call hnames hmem hcall)
  | listCall hcall =>
    cases h' with
    | copied hmem hslice =>
      exact absurd (Emission.value.inj hsame).1.symm (hslice.copy_ne_call hnames hmem hcall)
    | listCall hcall' =>
      obtain rfl := (String.append_right_inj _).mp (Emission.value.inj hsame).1
      exact hcall.unique hnames hcall'

end

/-! ### What nodes say -/

/-- Where a part of `n` elements starts, counted from zero. -/
def SliceStart.spot (config : Config) (n a : Int) : SliceStart → Int
  | fromStart => a - base config
  | fromEnd => n - a - (1 - base config)
  | first => 0

/-- The first position behind the part. -/
def SliceEnd.spot (config : Config) (n a : Int) : SliceEnd → Int
  | fromStart => a - base config + 1
  | fromEnd => n - a + base config
  | last => n

/-- What is computed for the start of a slice in place. -/
def SliceStart.placed (computing : Computing) (config : Config) (n a : Int) :
    SliceStart → Option Int
  | fromStart => computing.keep (a - base config)
  | fromEnd => do computing.keep (n - (← computing.keep (a + (1 - base config))))
  | first => some 0

def SliceEnd.placed (computing : Computing) (config : Config) (n a : Int) : SliceEnd → Option Int
  | fromStart => computing.keep (a + (1 - base config))
  | fromEnd => do computing.keep (n - (← computing.keep (a - base config)))
  | last => some n

/-- How a part is emitted: as all of the owner, as a slice in place or as a call of a helper. -/
inductive Cut
  | whole
  | placed
  | called
  deriving DecidableEq, Repr

/-- Code that may be written twice. -/
def Holder.repeats (owner : String) : Holder → Bool
  | text => Text.isQuotedWord quotes.delimiter owner
  | _ => Text.isWord owner

def Holder.cut (owner : String) (start : SliceStart) (finish : SliceEnd) (holder : Holder) : Cut :=
  match holder, start, finish with
  | text, .first, .last => .whole
  | _, _, _ => if holder.repeats owner || lengthFree start finish then .placed else .called

/-- What is computed for the indices `a1` and `a2`. -/
def Cut.range (computing : Computing) (config : Config) (n : Int) (start : SliceStart) (a1 : Int)
    (finish : SliceEnd) (a2 : Int) : Cut → Option (Int × Int)
  | whole => some (0, n)
  | placed =>
    computing.range n (start.placed computing config n a1) (finish.placed computing config n a2)
  | called => do
    let at1 ← computing.keep (a1 - base config)
    let at2 ← computing.keep (a2 - base config)
    let low ← start.called computing n at1
    let last ← finish.called computing n at2
    computing.range n (some low) (computing.keep (last + 1))

variable {config : Config} {node : Node} {session next : Session}

/-- The code of the first index of a part. Nothing is read where the part starts with
the first element. -/
def StartsAt (config : Config) (node : Node) (next : Session) (start : SliceStart)
    (raw : String) : Prop :=
  Rendered config node next "AT1" (firstIndex config) raw ∨ start = .first ∧ raw = firstIndex config

def EndsAt (config : Config) (node : Node) (next : Session) (finish : SliceEnd)
    (raw : String) : Prop :=
  Rendered config node next "AT2" (firstIndex config) raw ∨ finish = .last ∧ raw = firstIndex config

theorem StartsAt.later {between : Session} {start : SliceStart} {raw : String}
    (h : StartsAt config node between start raw) (hlater : Later between next) :
    StartsAt config node next start raw :=
  h.imp_left fun hraw => hraw.later hlater

theorem EndsAt.later {between : Session} {finish : SliceEnd} {raw : String}
    (h : EndsAt config node between finish raw) (hlater : Later between next) :
    EndsAt config node next finish raw :=
  h.imp_left fun hraw => hraw.later hlater

/-- The emission selects what is computed for the indices of a node. -/
def Parts (config : Config) (node : Node) (next : Session) (holder : Holder) (owner : String)
    (start : SliceStart) (finish : SliceEnd) (emission : Emission) : Prop :=
  ∃ raw1 raw2, StartsAt config node next start raw1 ∧ EndsAt config node next finish raw2 ∧
    ∀ computing first second n a1 a2,
      Indicates computing first raw1 a1 → Indicates computing second raw2 a2 →
      Selects next.helpers.realized computing first second n owner holder emission
        ((holder.cut owner start finish).range computing config n start a1 finish a2)

theorem Shifts.bound {computing : Computing} {reckoning : Reckoning} {place : Rank}
    {raw text : String} {delta a : Int} (h : Shifts place raw delta text)
    (ha : Indicates computing reckoning raw a) (n : Int) (owner : String) :
    Bound computing reckoning n owner text (computing.keep (a + delta)) := by
  obtain ⟨tree, hdenotes, hvalue⟩ := h computing reckoning a ha
  rw [← hvalue]
  exact .index (hdenotes.mono (reach_le_sentence place))

theorem Shifts.distance {computing : Computing} {reckoning : Reckoning}
    {raw back owner : String} {delta a : Int} {length : List Token}
    (h : Shifts .additive raw delta back) (ha : Indicates computing reckoning raw a)
    (hunit : Denotes 0 s!"{owner}.len" (.unit length)) (n : Int) :
    Bound computing reckoning n owner s!"{owner}.len - {back}"
      (do computing.keep (n - (← computing.keep (a + delta)))) := by
  obtain ⟨tree, hdenotes, hvalue⟩ := h computing reckoning a ha
  rw [← hvalue]
  exact .distance hunit hdenotes

section

variable {items : String} {start : SliceStart} {finish : SliceEnd}
  (hindent : IsIndent config.indentUnit.toList) (hsession : Named session)
  (hdoubles : ∀ slot ∈ ["AT1", "AT2"], ∀ inner, node.input slot = some inner → OfDoubles inner)

include hindent hsession hdoubles

theorem gives_atZero {slot : String} (hslot : slot ∈ ["AT1", "AT2"]) (place : Rank) :
    Gives config node (.index config slot 0 false place) session fun text next =>
      ∃ raw, Rendered config node next slot (firstIndex config) raw ∧
        Shifts place raw (-base config) text := by
  rw [← rebased_zero]
  exact gives_index hindent hsession (hdoubles slot hslot) (.inl rfl) place

theorem gives_atOne {slot : String} (hslot : slot ∈ ["AT1", "AT2"]) (place : Rank) :
    Gives config node (.index config slot 1 false place) session fun text next =>
      ∃ raw, Rendered config node next slot (firstIndex config) raw ∧
        Shifts place raw (1 - base config) text := by
  rw [← rebased_one]
  exact gives_index hindent hsession (hdoubles slot hslot) (.inr rfl) place

theorem gives_sliceFrom
    (hlength : start = .fromEnd → ∃ length, Denotes 0 s!"{items}.len" (.unit length)) :
    Gives config node (sliceFrom config items start) session fun low next =>
      ∃ raw, StartsAt config node next start raw ∧ ∀ computing reckoning n a,
        Indicates computing reckoning raw a →
        Bound computing reckoning n items low (start.placed computing config n a) := by
  cases start with
  | first =>
    refine Gives.pure ⟨_, .inr ⟨rfl, rfl⟩, fun computing reckoning n a _ => ?_⟩
    exact .index ((denotes_toString 0).mono (Nat.zero_le _))
  | fromStart =>
    refine (gives_atZero hindent hsession hdoubles (by simp) .none).mono fun low next hlow => ?_
    obtain ⟨raw, hraw, hshifts⟩ := hlow
    exact ⟨raw, .inl hraw, fun computing reckoning n a ha => hshifts.bound ha n items⟩
  | fromEnd =>
    obtain ⟨length, hunit⟩ := hlength rfl
    refine (gives_atOne hindent hsession hdoubles (by simp) .additive).bind hsession
      fun back between _ hback => ?_
    obtain ⟨raw, hraw, hshifts⟩ := hback
    exact Gives.pure ⟨raw, .inl hraw, fun computing reckoning n a ha => hshifts.distance ha hunit n⟩

theorem gives_sliceInPlace
    (hlength : start = .fromEnd ∨ finish = .fromEnd → ∃ length,
      Denotes 0 s!"{items}.len" (.unit length)) :
    Gives config node (sliceInPlace config items start finish) session fun code next =>
      ∃ raw1 raw2, StartsAt config node next start raw1 ∧ EndsAt config node next finish raw2 ∧
        ∀ computing first second n a1 a2,
          Indicates computing first raw1 a1 → Indicates computing second raw2 a2 →
          Slices computing first second n items code
            (computing.range n (start.placed computing config n a1)
              (finish.placed computing config n a2)) := by
  unfold sliceInPlace
  refine (gives_sliceFrom hindent hsession hdoubles fun hstart => hlength (.inl hstart)).bind
    hsession fun low between hbetween hlow => ?_
  obtain ⟨raw1, hraw1, hstart⟩ := hlow
  cases finish with
  | last =>
    refine Gives.pure ⟨raw1, _, hraw1, .inr ⟨rfl, rfl⟩,
      fun computing first second n a1 a2 ha1 _ => ?_⟩
    exact .onwards (hstart computing first n a1 ha1)
  | fromStart =>
    refine (gives_atOne hindent hbetween.toNamed hdoubles (by simp) .none).bind hbetween.toNamed
      fun high last hlast hhigh => ?_
    obtain ⟨raw2, hraw2, hshifts⟩ := hhigh
    refine Gives.pure ⟨raw1, raw2, hraw1.later hlast, .inl hraw2,
      fun computing first second n a1 a2 ha1 ha2 => ?_⟩
    exact .between (hstart computing first n a1 ha1) (hshifts.bound ha2 n items)
  | fromEnd =>
    obtain ⟨length, hunit⟩ := hlength (.inr rfl)
    refine (gives_atZero hindent hbetween.toNamed hdoubles (by simp) .additive).bind
      hbetween.toNamed fun back last hlast hback => ?_
    obtain ⟨raw2, hraw2, hshifts⟩ := hback
    refine Gives.pure ⟨raw1, raw2, hraw1.later hlast, .inl hraw2,
      fun computing first second n a1 a2 ha1 ha2 => ?_⟩
    have hslice := Slices.between (hstart computing first n a1 ha1) (hshifts.distance ha2 hunit n)
    have htext : ∀ high : String, high = s!"{items}.len - {back}" →
        s!"{items}[{low}..{high}]" = s!"{items}[{low}..{items}.len - {back}]" := by
      rintro high rfl
      rw [← String.toList_inj]
      simp [toString]
    rwa [htext _ rfl] at hslice

theorem gives_sliceThrough {key template : String}
    {slicer : Slicer} (htemplate : slicer.template = template)
    (hrange : ∀ computing n at1 at2, computing.keep at1 = some at1 → computing.keep at2 = some at2 →
      slicer.range computing n start.tag at1 finish.tag at2 = (do
        let low ← start.called computing n at1
        let last ← finish.called computing n at2
        computing.range n (some low) (computing.keep (last + 1)))) :
    Gives config node (sliceThrough config key template items start finish) session fun code next =>
      ∃ raw1 raw2, StartsAt config node next start raw1 ∧ EndsAt config node next finish raw2 ∧
        ∀ computing first second n a1 a2,
          Indicates computing first raw1 a1 → Indicates computing second raw2 a2 →
          Calls next.helpers.realized computing first second n key slicer items code
            (Cut.called.range computing config n start a1 finish a2) := by
  unfold sliceThrough
  refine (gives_atZero hindent hsession hdoubles (by simp) .none).bind hsession
    fun at1 between hbetween hat1 => ?_
  obtain ⟨raw1, hraw1, hshifts1⟩ := hat1
  refine (gives_atZero hindent hbetween.toNamed hdoubles (by simp) .none).bind hbetween.toNamed
    fun at2 later hlater hat2 => ?_
  obtain ⟨raw2, hraw2, hshifts2⟩ := hat2
  refine (gives_askHelper key template).bind hlater.toNamed fun helper last hlast hmem => ?_
  refine Gives.pure ⟨raw1, raw2, .inl (hraw1.later (hlater.trans hlast)), .inl (hraw2.later hlast),
    fun computing first second n a1 a2 ha1 ha2 => ?_⟩
  obtain ⟨lower, hlower, hvalue1⟩ := hshifts1 computing first a1 ha1
  obtain ⟨upper, hupper, hvalue2⟩ := hshifts2 computing second a2 ha2
  have hcall := @Calls.call last.helpers.realized computing first second n key slicer items
    helper at1 at2 start finish lower upper (htemplate ▸ hmem) (hlower.mono (reach_le_sentence _))
      (hupper.mono (reach_le_sentence _))
  rw [hvalue1, hvalue2, ← Int.sub_eq_add_neg, ← Int.sub_eq_add_neg] at hcall
  have houtcome : Cut.called.range computing config n start a1 finish a2 = (do
      let at1 ← computing.keep (a1 - base config)
      let at2 ← computing.keep (a2 - base config)
      slicer.range computing n start.tag at1 finish.tag at2) :=
    Option.bind_congr fun at1 hat1 => Option.bind_congr fun at2 hat2 =>
      (hrange computing n at1 at2 (Computing.eq_of_keep hat1).2 (Computing.eq_of_keep hat2).2).symm
  rw [houtcome]
  exact hcall

omit hindent hsession hdoubles in
theorem gives_sliceEnds (hstart : sliceStart? (optionOr node "WHERE1" "FROM_START") = some start)
    (hfinish : sliceEnd? (optionOr node "WHERE2" "FROM_START") = some finish)
    (hsession : Named session) :
    Gives config node (sliceEnds node) session fun ends _ => ends = (start, finish) := by
  refine (gives_choose "WHERE1" _).bind hsession fun chosen between hbetween hchosen => ?_
  refine (gives_choose "WHERE2" _).bind hbetween.toNamed fun other last _ hother => ?_
  obtain rfl := Option.some.inj (hstart.symm.trans hchosen)
  obtain rfl := Option.some.inj (hfinish.symm.trans hother)
  exact Gives.pure rfl

omit hindent hsession hdoubles in
theorem lengthFree_eq_false (h : start = .fromEnd ∨ finish = .fromEnd) :
    lengthFree start finish = false := by
  rcases h with rfl | rfl
  · cases finish <;> rfl
  · cases start <;> rfl

theorem gives_subtext (hstart : sliceStart? (optionOr node "WHERE1" "FROM_START") = some start)
    (hfinish : sliceEnd? (optionOr node "WHERE2" "FROM_START") = some finish) :
    Gives config node (subtext config node) session fun emission next =>
      ∃ owner, Rendered config node next "STRING" emptyText owner ∧
        Parts config node next .text owner start finish emission := by
  unfold subtext
  refine (gives_sliceEnds hstart hfinish hsession).bind hsession
    fun ends between hbetween hends => ?_
  subst hends
  have hnamed := hbetween.toNamed
  by_cases hwhole : start = .first ∧ finish = .last
  · obtain ⟨rfl, rfl⟩ := hwhole
    refine (gives_valueOr hindent hnamed "STRING" .none atom_emptyText).bind hnamed
      fun text last _ htext => ?_
    exact Gives.pure ⟨text, htext.1, _, _, .inr ⟨rfl, rfl⟩, .inr ⟨rfl, rfl⟩,
      fun _ _ _ n _ _ _ _ => .whole⟩
  have hcut : ∀ text : String, Holder.text.cut text start finish =
      if Text.isQuotedWord quotes.delimiter text || lengthFree start finish then .placed
        else .called := by
    intro text
    cases start <;> cases finish <;> first | rfl | exact absurd ⟨rfl, rfl⟩ hwhole
  show Gives config node (if _ then _ else _) between _
  rw [if_neg (by simpa using hwhole)]
  refine (gives_valueOr hindent hnamed "STRING" .unaryPostfix atom_emptyText).bind hnamed
    fun text later hlater htext => ?_
  split
  · rename_i hplaced
    refine (gives_sliceInPlace hindent hlater.toNamed hdoubles fun hends => ?_).bind hlater.toNamed
      fun code last hlast hcode => ?_
    · rw [lengthFree_eq_false hends, Bool.or_false] at hplaced
      exact exists_denotes_length htext.2 hplaced
    · obtain ⟨raw1, raw2, hraw1, hraw2, hslice⟩ := hcode
      refine Gives.pure ⟨text, htext.1.later hlast, raw1, raw2, hraw1, hraw2,
        fun computing first second n a1 a2 ha1 ha2 => ?_⟩
      rw [hcut, if_pos hplaced]
      exact .text (hslice computing first second n a1 a2 ha1 ha2)
  · rename_i hcalled
    refine (gives_any requireStd).bind hlater.toNamed fun _ required hrequired _ => ?_
    refine (gives_sliceThrough hindent hrequired.toNamed hdoubles template_subtextSlicer
      fun computing n at1 at2 hat1 hat2 =>
        range_boundStatements isPlain_text rfl rfl rfl hat1 hat2 n start finish).bind
      hrequired.toNamed fun code last hlast hcode => ?_
    obtain ⟨raw1, raw2, hraw1, hraw2, hcall⟩ := hcode
    refine Gives.pure ⟨text, htext.1.later (hrequired.trans hlast), raw1, raw2, hraw1, hraw2,
      fun computing first second n a1 a2 ha1 ha2 => ?_⟩
    rw [hcut, if_neg hcalled]
    exact .textCall (hcall computing first second n a1 a2 ha1 ha2)

omit hindent hsession hdoubles in
theorem gives_copyItems (hsession : Named session) (items : String) :
    Gives config node (copyItems items) session fun code next =>
      ∃ helper, code = s!"try {helper}({items})" ∧
        (("lists_create_with", copyTemplate), helper) ∈ next.helpers.realized := by
  refine (gives_any requireAllocator).bind hsession fun _ between hbetween _ => ?_
  refine (gives_askHelper "lists_create_with" copyTemplate).bind hbetween.toNamed
    fun helper last _ hmem => ?_
  exact Gives.pure ⟨helper, rfl, hmem⟩

theorem gives_sublist (hstart : sliceStart? (optionOr node "WHERE1" "FROM_START") = some start)
    (hfinish : sliceEnd? (optionOr node "WHERE2" "FROM_START") = some finish) :
    Gives config node (sublist config node) session fun emission next =>
      ∃ owner, Rendered config node next "LIST" newList owner ∧
        Parts config node next .list owner start finish emission := by
  unfold sublist
  refine (gives_sliceEnds hstart hfinish hsession).bind hsession
    fun ends between hbetween hends => ?_
  subst hends
  have hcut : ∀ list : String, Holder.list.cut list start finish =
      if Text.isWord list || lengthFree start finish then .placed else .called := by
    intro list
    cases start <;> cases finish <;> rfl
  refine (gives_listOr hindent hbetween.toNamed "LIST").bind hbetween.toNamed
    fun list later hlater hlist => ?_
  split
  · rename_i hplaced
    refine (gives_sliceInPlace hindent hlater.toNamed hdoubles fun hends => ?_).bind hlater.toNamed
      fun code sliced hsliced hcode => ?_
    · rw [lengthFree_eq_false hends, Bool.or_false] at hplaced
      exact exists_denotes_items rfl hlist.2 (isQuotedWord_of_isWord hplaced)
    · obtain ⟨raw1, raw2, hraw1, hraw2, hslice⟩ := hcode
      refine (gives_copyItems hsliced.toNamed code).bind hsliced.toNamed
        fun copied last hlast hcopied => ?_
      obtain ⟨helper, rfl, hmem⟩ := hcopied
      refine Gives.pure ⟨list, hlist.1.later (hsliced.trans hlast), raw1, raw2, hraw1.later hlast,
        hraw2.later hlast, fun computing first second n a1 a2 ha1 ha2 => ?_⟩
      rw [hcut, if_pos hplaced]
      exact .copied hmem (hslice computing first second n a1 a2 ha1 ha2)
  · rename_i hcalled
    refine (gives_any requireAllocator).bind hlater.toNamed fun _ required hrequired _ => ?_
    refine (gives_sliceThrough hindent hrequired.toNamed hdoubles template_sublistSlicer
      fun computing n at1 at2 hat1 hat2 =>
        range_boundStatements isPlain_values rfl rfl rfl hat1 hat2 n start finish).bind
      hrequired.toNamed fun code last hlast hcode => ?_
    obtain ⟨raw1, raw2, hraw1, hraw2, hcall⟩ := hcode
    refine Gives.pure ⟨list, hlist.1.later (hrequired.trans hlast), raw1, raw2, hraw1, hraw2,
      fun computing first second n a1 a2 ha1 ha2 => ?_⟩
    rw [hcut, if_neg hcalled]
    exact .listCall (hcall computing first second n a1 a2 ha1 ha2)

end

/-! ### All cuts select the same -/

section

variable {n a a1 a2 : Int} {start : SliceStart} {finish : SliceEnd}

theorem SliceStart.placed_whole (start : SliceStart) :
    start.placed .whole config n a = some (start.spot config n a) := by
  cases start with
  | fromStart => rfl
  | fromEnd =>
    exact congrArg some (show n - (a + (1 - base config)) = n - a - (1 - base config) by omega)
  | first => rfl

theorem SliceEnd.placed_whole (finish : SliceEnd) :
    finish.placed .whole config n a = some (finish.spot config n a) := by
  cases finish with
  | fromStart => exact congrArg some (show a + (1 - base config) = a - base config + 1 by omega)
  | fromEnd => exact congrArg some (show n - (a - base config) = n - a + base config by omega)
  | last => rfl

theorem SliceStart.called_whole (start : SliceStart) :
    start.called .whole n (a - base config) = some (start.spot config n a) := by
  cases start with
  | fromStart => rfl
  | fromEnd =>
    exact congrArg some (show n - 1 - (a - base config) = n - a - (1 - base config) by omega)
  | first => rfl

/-- A helper works out the last position of the part. -/
theorem SliceEnd.called_whole (finish : SliceEnd) :
    finish.called .whole n (a - base config) = some (finish.spot config n a - 1) := by
  cases finish with
  | fromStart => exact congrArg some (show a - base config = a - base config + 1 - 1 by omega)
  | fromEnd =>
    exact congrArg some (show n - 1 - (a - base config) = n - a + base config - 1 by omega)
  | last => rfl

theorem range_placed_whole : Cut.placed.range .whole config n start a1 finish a2 =
    some (start.spot config n a1, finish.spot config n a2) := by
  rw [Cut.range, SliceStart.placed_whole, SliceEnd.placed_whole]
  rfl

theorem range_called_whole : Cut.called.range .whole config n start a1 finish a2 =
    some (start.spot config n a1, finish.spot config n a2) := by
  simp only [Cut.range, Computing.keep, Option.bind_eq_bind, Option.bind_some,
    SliceStart.called_whole, SliceEnd.called_whole, Int.sub_add_cancel]
  rfl

theorem range_cut_whole (owner : String) (holder : Holder) :
    (holder.cut owner start finish).range .whole config n start a1 finish a2 =
      some (start.spot config n a1, finish.spot config n a2) := by
  unfold Holder.cut
  split
  · rfl
  · split
    · exact range_placed_whole
    · exact range_called_whole

end

theorem worth_base (config : Config) (reckoning : Reckoning) :
    Worth reckoning (firstIndex config) (base config) := by
  have hfirst := (denotes_firstIndex config).worth (Nat.zero_le _) reckoning
  rwa [worth_firstIndex hfirst] at hfirst

/-- An empty slot is rendered as what stands for it. -/
theorem Rendered.eq_fallback {slot fallback text : String}
    (h : Rendered config node next slot fallback text) (hslot : node.inputs.lookup slot = none) :
    text = fallback := by
  obtain ⟨place, before, code, after, hrun, -, rfl⟩ := h
  rw [slotCode_eq, hslot] at hrun
  obtain ⟨rfl, -⟩ := EStateM.Result.ok.inj hrun
  rfl

theorem StartsAt.eq_firstIndex {start : SliceStart} {raw : String}
    (h : StartsAt config node next start raw) (hslot : node.inputs.lookup "AT1" = none) :
    raw = firstIndex config :=
  h.elim (fun hraw => hraw.eq_fallback hslot) And.right

theorem EndsAt.eq_firstIndex {finish : SliceEnd} {raw : String}
    (h : EndsAt config node next finish raw) (hslot : node.inputs.lookup "AT2" = none) :
    raw = firstIndex config :=
  h.elim (fun hraw => hraw.eq_fallback hslot) And.right

/-- The slot of what a node takes a part of, and what stands for it if it is empty. -/
def partSlot? : String → Option (String × String × Holder)
  | "text_getSubstring" => some ("STRING", emptyText, .text)
  | "lists_getSublist" => some ("LIST", newList, .list)
  | _ => none

theorem parts_of_emission (hindent : IsIndent config.indentUnit.toList)
    (hreach : Reachable (setting config) session) {slot fallback : String}
    {holder : Holder} (howner : partSlot? node.kind = some (slot, fallback, holder))
    (hdoubles : ∀ slot ∈ ["AT1", "AT2"], ∀ inner, node.input slot = some inner → OfDoubles inner)
    {start : SliceStart} (hstart : sliceStart? (optionOr node "WHERE1" "FROM_START") = some start)
    {finish : SliceEnd} (hfinish : sliceEnd? (optionOr node "WHERE2" "FROM_START") = some finish)
    {emission : Emission} (h : (node.offer (setting config)).emission session = .ok emission next) :
    Named next ∧ ∃ owner, Rendered config node next slot fallback owner ∧
      Parts config node next holder owner start finish emission := by
  have hsession := named_of_reachable hreach
  unfold partSlot? at howner
  split at howner <;> rename_i hkind
  · obtain ⟨rfl, rfl, rfl⟩ := howner
    rw [emission_of_kind hkind ((find?_catalog (by decide)).trans rfl)] at h
    exact ⟨(later_of_ask hsession h).toNamed,
      gives_subtext hindent hsession hdoubles hstart hfinish _ _ h⟩
  · obtain ⟨rfl, rfl, rfl⟩ := howner
    rw [emission_of_kind hkind ((find?_catalog (by decide)).trans rfl)] at h
    exact ⟨(later_of_ask hsession h).toNamed,
      gives_sublist hindent hsession hdoubles hstart hfinish _ _ h⟩
  · cases howner

/-- Whether it slices in place or calls a helper, an emission selects the range that
its node says, which is from the first position to behind the last one, and no other
if the length of the owner is reckoned as `n`. -/
theorem slices_in_place_and_by_helpers_select_the_same_range
    (hindent : IsIndent config.indentUnit.toList)
    (hreach : Reachable (setting config) session) {slot fallback : String}
    {holder : Holder} (howner : partSlot? node.kind = some (slot, fallback, holder))
    (hdoubles : ∀ slot ∈ ["AT1", "AT2"], ∀ inner, node.input slot = some inner → OfDoubles inner)
    {start : SliceStart} (hstart : sliceStart? (optionOr node "WHERE1" "FROM_START") = some start)
    {finish : SliceEnd} (hfinish : sliceEnd? (optionOr node "WHERE2" "FROM_START") = some finish)
    {emission : Emission} (h : (node.offer (setting config)).emission session = .ok emission next) :
    (∀ reckoning, Worth reckoning (firstIndex config) (base config)) ∧
      ∃ owner raw1 raw2,
        Rendered config node next slot fallback owner ∧ StartsAt config node next start raw1 ∧
        EndsAt config node next finish raw2 ∧
        ∀ first second n a1 a2, Worth first raw1 a1 → Worth second raw2 a2 →
          let range := (start.spot config n a1, finish.spot config n a2)
          Selects next.helpers.realized .whole first second n owner holder emission (some range) ∧
            (Worth first (holder.length owner) n → Worth second (holder.length owner) n →
              ∀ outcome,
                Selects next.helpers.realized .whole first second n owner holder emission outcome →
                outcome = some range) := by
  obtain ⟨hnamed, owner, hrendered, raw1, raw2, hraw1, hraw2, hselects⟩ :=
    parts_of_emission hindent hreach howner hdoubles hstart hfinish h
  refine ⟨worth_base config, owner, raw1, raw2, hrendered, hraw1, hraw2, ?_⟩
  intro first second n a1 a2 ha1 ha2 range
  have hrange := hselects .whole first second n a1 a2 ha1.indicates ha2.indicates
  rw [range_cut_whole] at hrange
  refine ⟨hrange, fun hfirst hsecond outcome houtcome => ?_⟩
  exact houtcome.unique hnamed.realized (computes_whole_iff.mpr hfirst)
    (computes_whole_iff.mpr hsecond) hrange

/-- The last five letters of a text. -/
def lastFive : Node :=
  { kind := "text_getSubstring", fields := [("WHERE1", .text "FROM_END"), ("WHERE2", .text "LAST")],
    inputs := [("AT1", { kind := "math_number", fields := [("NUM", .number five)] })] }

theorem slotCode_lastFive (session : Session) (place : Rank) :
    slotCode {} lastFive "AT1" place session = .ok (some "5") session := by
  have hslot : slotCode {} lastFive "AT1" place = slotCode {} fifth "AT" place := by
    rw [slotCode_eq, slotCode_eq]
    rfl
  rw [hslot, slotCode_fifth]

/-- A helper is called wherever the two indices are rendered. -/
theorem exists_sliceThrough {node : Node}
    (hindices : ∀ slot ∈ ["AT1", "AT2"], ∀ session, ∃ code next,
      (setting config).ask node (.index config slot 0 false .none) session = .ok code next)
    (key template items : String) (start : SliceStart) (finish : SliceEnd) (session : Session) :
    ∃ code next,
      (setting config).ask node (sliceThrough config key template items start finish) session =
      .ok code next := by
  obtain ⟨at1, between, hat1⟩ := hindices "AT1" (by simp) session
  obtain ⟨at2, later, hat2⟩ := hindices "AT2" (by simp) between
  have hhelper : (setting config).ask node (.askHelper key template) later = .ok _ _ := rfl
  rw [sliceThrough, Setting.ask_bind, Synth.bind_of_ok hat1, Setting.ask_bind,
    Synth.bind_of_ok hat2, Setting.ask_bind, Synth.bind_of_ok hhelper]
  exact ⟨_, _, rfl⟩

theorem exists_index_of_empty {node : Node} {slot : String}
    (hslot : node.inputs.lookup slot = none) (session : Session) :
    ∃ code next,
      (setting config).ask node (.index config slot 0 false .none) session = .ok code next := by
  rw [ask_index, slotCode_eq, hslot]
  exact ⟨_, _, rfl⟩

theorem exists_emission_lastFive :
    ∃ emission next,
      (lastFive.offer (setting {})).emission (setting {}).session = .ok emission next := by
  have hindices : ∀ slot ∈ ["AT1", "AT2"], ∀ session,
      ∃ code next,
        (setting {}).ask lastFive (.index {} slot 0 false .none) session = .ok code next := by
    intro slot hmem session
    rcases List.mem_pair.mp hmem with rfl | rfl
    · rw [ask_index]
      exact ⟨_, _, Synth.bind_of_ok (slotCode_lastFive session _) _⟩
    · exact exists_index_of_empty rfl session
  have hends : (setting {}).ask lastFive (sliceEnds lastFive) (setting {}).session =
      .ok (.fromEnd, .last) (setting {}).session := rfl
  have htext : (setting {}).ask lastFive (.valueOr "STRING" .unaryPostfix emptyText)
      (setting {}).session = .ok emptyText (setting {}).session := rfl
  have hrequire : (setting {}).ask lastFive requireStd (setting {}).session = .ok () _ := rfl
  have hcomputed : ¬(Text.isQuotedWord quotes.delimiter emptyText || lengthFree .fromEnd .last) =
      true := by decide
  obtain ⟨code, next, hcode⟩ :=
    exists_sliceThrough hindices "text_get_substring" subtextTemplate emptyText .fromEnd .last _
  rw [emission_of_kind rfl ((find?_catalog (by decide)).trans rfl)]
  show ∃ emission next, (setting {}).ask lastFive (subtext {} lastFive) _ = .ok emission next
  rw [subtext, Setting.ask_bind, Synth.bind_of_ok hends]
  show ∃ emission next,
    (setting {}).ask lastFive (Script.valueOr "STRING" .unaryPostfix emptyText >>= _) _ = _
  rw [Setting.ask_bind, Synth.bind_of_ok htext, if_neg hcomputed, Setting.ask_bind,
    Synth.bind_of_ok hrequire, Setting.ask_bind, Synth.bind_of_ok hcode]
  exact ⟨_, _, rfl⟩

theorem last_five_letters_are_selected :
    OfDoubles { kind := "math_number", fields := [("NUM", .number five)] } ∧
    ∃ emission next,
      (lastFive.offer (setting {})).emission (setting {}).session = .ok emission next ∧
      ∀ first second n,
        Selects next.helpers.realized .whole first second n emptyText .text emission
          (some (n - 5, n)) := by
  obtain ⟨emission, next, h⟩ := exists_emission_lastFive
  have hdoubles : ∀ slot ∈ ["AT1", "AT2"], ∀ inner,
      lastFive.input slot = some inner → OfDoubles inner := by
    intro slot hslot inner hinner
    rcases List.mem_pair.mp hslot with rfl | rfl
    · obtain rfl := Option.some.inj hinner
      exact ofDoubles_five
    · cases hinner
  obtain ⟨hbase, owner, raw1, raw2, howner, hraw1, hraw2, hselects⟩ :=
    slices_in_place_and_by_helpers_select_the_same_range (by decide) .start rfl hdoubles
      (show sliceStart? (optionOr lastFive "WHERE1" "FROM_START") = some .fromEnd from rfl)
      (show sliceEnd? (optionOr lastFive "WHERE2" "FROM_START") = some .last from rfl) h
  obtain rfl := howner.eq_fallback rfl
  obtain rfl := hraw2.eq_firstIndex rfl
  obtain ⟨place, before, code, after, hcode, -, rfl⟩ | ⟨hfirst, -⟩ := hraw1
  case inr => cases hfirst
  obtain ⟨rfl, -⟩ := EStateM.Result.ok.inj ((slotCode_lastFive _ _).symm.trans hcode)
  refine ⟨ofDoubles_five, emission, next, h, fun first second n => ?_⟩
  have hfive : Worth first "5" 5 := (denotes_toString 5).worth (Nat.zero_le _) first
  have hrange := (hselects first second n 5 (base {}) hfive (hbase second)).1
  have hspot : SliceStart.fromEnd.spot {} n 5 = n - 5 := Int.sub_zero _
  rwa [hspot] at hrange

end BlockSynth.Zig
