import BlockSynth.Proofs.Zig.Indexing
import BlockSynth.Zig.Position

/-! # Accesses to elements

What code computes as the position of the element that it reads, removes, writes or inserts: in
place, or in a helper that is given the distance from the end.
-/
namespace BlockSynth.Zig

variable {config : Config} {reckoning : Reckoning} {n k spot : Int}

/-! ### Elements -/

/-- What has elements: a list, the slice of the items of a list, or a text. -/
inductive Holder
  | list
  | items
  | text

def Holder.type : Holder → String
  | list => "*std.ArrayList(f32)"
  | items => "[]const f32"
  | text => "[]const u8"

/-- The number of elements of an owner. -/
def Holder.length (owner : String) : Holder → String
  | list => s!"{owner}.items.len"
  | items => s!"{owner}.len"
  | text => s!"{owner}.len"

/-- Code for one of the `n` elements of an owner, and its position. An `ArrayList`
gets and pops its last one. -/
inductive Accesses (reckoning : Reckoning) (owner : String) (n : Int) : Holder → String → Int → Prop
  | item {index : String} {position : Int} : Worth reckoning index position →
    Accesses reckoning owner n .list s!"{owner}.items[{index}]" position
  | removed {index : String} {position : Int} : Worth reckoning index position →
    Accesses reckoning owner n .list s!"{owner}.orderedRemove({index})" position
  | last : Accesses reckoning owner n .list s!"{owner}.getLast()" (n - 1)
  | popped : Accesses reckoning owner n .list s!"{owner}.pop()" (n - 1)
  | element {index : String} {position : Int} : Worth reckoning index position →
    Accesses reckoning owner n .items s!"{owner}[{index}]" position
  | letter {index : String} {position : Int} : Worth reckoning index position →
    Accesses reckoning owner n .text s!"{owner}[{index}..][0..1]" position
  | firstLetter : Accesses reckoning owner n .text s!"{owner}[0..1]" 0

/-- Code accesses one position only. -/
theorem Accesses.unique {owner code : String} {position other : Int}
    {holder : Holder} (h : Accesses reckoning owner n holder code position)
    (h' : Accesses reckoning owner n holder code other) :
    position = other := by
  generalize hsame : code = same at h'
  have hlist := congrArg String.toList hsame
  cases h <;> cases h' <;> simp [toString] at hlist
  case last.last | popped.popped | firstLetter.firstLetter => rfl
  case item.item hfirst _ hsecond | removed.removed hfirst _ hsecond
    | element.element hfirst _ hsecond | letter.letter hfirst _ hsecond =>
    obtain rfl := String.toList_inj.mp hlist
    exact hfirst.unique hsecond
  -- A slice is too long to be the first letter.
  case letter.firstLetter | firstLetter.letter =>
    have hlength := congrArg List.length hlist
    simp at hlength

/-- An owner as the argument of a helper, and what the helper is given. -/
inductive Passes (owner : String) : Holder → String → Holder → Prop
  | items : Passes owner .list s!"{owner}.items" .items
  | reference : Passes owner .list s!"&{owner}" .list
  | text : Passes owner .text owner .text

/-- A helper with an owner of `n` elements and a number for parameters, which accesses one of the
elements, at a position that depends on the number. -/
def Locates (template : String) (inner : Holder) (n : Int) (position : Int → Int) : Prop :=
  ∃ parameter result body : String,
    template = routine s!"({parameter}: {inner.type}, x: usize) {result}" [s!"return {body};"] ∧
    ∀ reckoning x, Worth reckoning (inner.length parameter) n → Worth reckoning "x" x →
      Accesses reckoning parameter n inner body (position x)

/-- The same, in place or by a helper. -/
inductive Addresses (realized : List ((String × String) × String)) (reckoning : Reckoning)
    (owner : String) (n : Int) (holder : Holder) : String → Int → Prop
  | direct {code : String} {position : Int} : Accesses reckoning owner n holder code position →
    Addresses realized reckoning owner n holder code position
  | called {key template helper passed argument : String}
    {inner : Holder} {position : Int → Int} {x : Int} :
    ((key, template), helper) ∈ realized →
    Passes owner holder passed inner → Locates template inner n position →
    Worth reckoning argument x →
    Addresses realized reckoning owner n holder s!"{helper}({passed}, {argument})" (position x)

/-- An emission that reads, removes, writes or inserts the element at a position of an owner, which
may have been bound to a name for it. -/
inductive Touches (realized : List ((String × String) × String)) (reckoning : Reckoning)
    (owner : Cached) (n : Int) (holder : Holder) : Emission → Int → Prop
  | value {code : String} {position : Int} : owner.setup = "" →
    Addresses realized reckoning owner.expr n holder code position →
    Touches realized reckoning owner n holder (.value code .unaryPostfix) position
  | dropped {code : String} {position : Int} : Addresses
    realized reckoning owner.expr n holder code position →
    Touches realized reckoning owner n holder
    (.statement (owner.setup ++ s!"_ = {code};\n")) position
  | written {index value : String} {position : Int} : Worth reckoning index position →
    Touches realized reckoning owner n holder
      (.statement (owner.setup ++ s!"{owner.expr}.items[{index}] = {value};\n")) position
  | inserted {index value : String} {position : Int} : Worth reckoning index position →
    Touches realized reckoning owner n holder
      (.statement (owner.setup ++ s!"try {owner.expr}.insert({index}, {value});\n")) position

/-! ### Positions -/

/-- The first index. -/
def base (config : Config) : Int :=
  if config.oneBased then 1 else 0

/-- The position among `n` elements that the index `k` stands for, counted from zero. The first and
the last element are counted from the start and from the end. -/
def Position.spot? (config : Config) (n k : Int) : Position → Option Int
  | first => some (k - base config)
  | fromStart => some (k - base config)
  | last => some (n - k - (1 - base config))
  | fromEnd => some (n - k - (1 - base config))
  | random => none

theorem worth_firstIndex (h : Worth reckoning (firstIndex config) k) :
    k = base config := by
  rw [h.unique ((denotes_firstIndex config).worth (Nat.zero_le _) reckoning)]
  unfold base
  simp only [Amount.eval]
  split <;> rfl

theorem spot_first (hk : Worth reckoning (firstIndex config) k)
    (h : spot ∈ Position.first.spot? config n k) :
    spot = 0 := by
  obtain rfl := Option.some.inj h
  rw [worth_firstIndex hk, sub_self]

theorem spot_last (hk : Worth reckoning (firstIndex config) k)
    (h : spot ∈ Position.last.spot? config n k) :
    spot = n - 1 := by
  obtain rfl := Option.some.inj h
  rw [worth_firstIndex hk]
  omega

theorem spot_fromEnd {distance : Int} (hdistance : distance = k + (1 - base config))
    (h : spot ∈ Position.fromEnd.spot? config n k) : spot = n - distance := by
  obtain rfl := Option.some.inj h
  omega

/-! ### Distances from the end -/

theorem Operand.height_le {text : List Char} (h : Operand .unaryPostfix text) :
    Fits (fun rank => height rank ≤ 2) text :=
  h.toFits.mono fun rank hrank => by
    cases rank <;> first | decide | exact absurd hrank (by decide)

/-- The length of an owner less what fits behind a sign. -/
theorem worth_distance {length back : String} {amount : Amount}
    (hlength : Worth reckoning length n) (hoperand : Operand .unaryPostfix length.toList)
    (hback : Denotes (reach .additive) back amount) :
    Worth reckoning (length ++ " - " ++ back) (n - amount.eval reckoning) := by
  obtain ⟨tree, hdenotes, hvalue⟩ := hlength.denotes hoperand.height_le fun rank hrank => hrank
  have hjoined :=
    (@Denotes.joined _ _ .subtract _ _ (by decide) hdenotes hback).worth (by decide) reckoning
  have htext : length ++ " " ++ Operator.subtract.text ++ " " ++ back =
      length ++ " - " ++ back := by
    rw [← String.toList_inj, toList_joined]
    simp [Operator.text, Operator.token, Token.minus]
  rw [htext, Amount.eval, hvalue] at hjoined
  exact hjoined

/-- Blanks at the end do not count. -/
theorem Worth.congr {text other : String} {value : Int} (h : Worth reckoning text value)
    (hsame : Zig.tokens text.toList = Zig.tokens other.toList) : Worth reckoning other value := by
  obtain ⟨toks, tree, htokens, hphrase⟩ := h
  exact ⟨toks, tree, hsame ▸ htokens, hphrase⟩

theorem Holder.operand_length {owner : String}
    (h : Operand .unaryPostfix owner.toList) (holder : Holder) :
    Operand .unaryPostfix (holder.length owner).toList := by
  have hspells : Spells owner [.operand .unaryPostfix] := spells_iff.mpr h
  have hlist : Operand .unaryPostfix s!"{owner}.items.len".toList := operand_of_spells _ (by decide)
  have hslice : Operand .unaryPostfix s!"{owner}.len".toList := operand_of_spells _ (by decide)
  cases holder with
  | list => exact hlist
  | items => exact hslice
  | text => exact hslice

/-- The length of the first parameter of a helper less the second one. -/
theorem worth_behind {parameter : String} {inner : Holder}
    {x : Int} (hparameter : Atom parameter.toList)
    (hlength : Worth reckoning (inner.length parameter) n) (hx : Worth reckoning "x" x) :
    Worth reckoning (inner.length parameter ++ " - " ++ "x") (n - x) := by
  have hatom : Atom "x".toList := operand_of_spells _ (by decide)
  obtain ⟨amount, hdenotes, hvalue⟩ :=
    hx.denotes (hatom.suits .additive) fun rank => height_le_reach
  have hdistance :=
    worth_distance hlength (inner.operand_length (hparameter.operand .unaryPostfix)) hdenotes
  rwa [hvalue] at hdistance

theorem locates_letterFromEnd (n : Int) : Locates letterFromEndTemplate .text n (n - ·) := by
  refine ⟨"text", "[]const u8", "text[text.len - x ..][0..1]", by decide +kernel,
    fun reckoning x hlength hx => ?_⟩
  have hdistance := worth_behind (operand_of_spells _ (by decide)) hlength hx
  have hblank : Worth reckoning "text.len - x " (n - x) := hdistance.congr (by decide +kernel)
  exact .letter hblank

theorem locates_itemFromEnd (n : Int) : Locates itemFromEndTemplate .items n (n - ·) := by
  refine ⟨"values", "f32", "values[values.len - x]", by decide +kernel,
    fun reckoning x hlength hx => ?_⟩
  exact .element (worth_behind (operand_of_spells _ (by decide)) hlength hx)

theorem locates_removeFromEnd (n : Int) : Locates removeFromEndTemplate .list n (n - ·) := by
  refine ⟨"list", "f32", "list.orderedRemove(list.items.len - x)", by decide +kernel,
    fun reckoning x hlength hx => ?_⟩
  exact .removed (worth_behind (operand_of_spells _ (by decide)) hlength hx)

/-- A helper that is given the distance from the end. -/
theorem addresses_fromEnd {realized : List ((String × String) × String)}
    {key template helper owner passed back : String} {holder inner : Holder} {distance : Int}
    (hmem : ((key, template), helper) ∈ realized) (hpasses : Passes owner holder passed inner)
    (hlocates : Locates template inner n (n - ·)) (hback : Worth reckoning back distance) :
    Addresses realized reckoning owner n holder s!"{helper}({passed}, {back})" (n - distance) :=
  @Addresses.called realized reckoning owner n holder key template helper passed back inner (n - ·)
    distance hmem hpasses hlocates hback

/-- A position that is counted from the end in place. -/
theorem worth_fromEnd {owner back : String} {amount : Amount}
    (howner : Operand .unaryPostfix owner.toList)
    (hlength : Worth reckoning (Holder.list.length owner) n)
    (hback : Denotes (reach .additive) back amount) :
    Worth reckoning s!"{owner}.items.len - {back}" (n - amount.eval reckoning) := by
  have hdistance := worth_distance hlength (Holder.list.operand_length howner) hback
  have htext : Holder.list.length owner ++ " - " ++ back = s!"{owner}.items.len - {back}" := by
    rw [← String.toList_inj]
    simp [Holder.length, toString]
  rwa [htext] at hdistance

/-! ### Emissions -/

section

variable {realized : List ((String × String) × String)} {list : String}

theorem touches_removal (access : Access) {holder : Holder} {code : String}
    (h : Addresses realized reckoning list n holder code spot) :
    Touches realized reckoning ⟨list, ""⟩ n holder (removal access code) spot := by
  unfold removal
  split
  · have hdropped := @Touches.dropped _ _ ⟨list, ""⟩ _ _ _ _ h
    rwa [String.empty_append] at hdropped
  · exact .value rfl h

theorem touches_accessAt (access : Access) {index : String} (h : Worth reckoning index spot) :
    Touches realized reckoning ⟨list, ""⟩ n .list (accessAt access list index) spot := by
  unfold accessAt
  split
  · exact .value rfl (.direct (.item h))
  · exact touches_removal access (.direct (.removed h))

theorem touches_writeAt (insert : Bool) (owner : Cached)
    {index : String} (value : String) (h : Worth reckoning index spot) :
    Touches realized reckoning owner n .list
      (.statement (owner.setup ++ writeAt insert owner.expr index value))
      spot := by
  unfold writeAt
  split
  · exact .inserted h
  · exact .written h

end

end BlockSynth.Zig
