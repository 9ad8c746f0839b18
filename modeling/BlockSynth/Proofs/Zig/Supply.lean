import BlockSynth.Proofs.Provision
import BlockSynth.Proofs.Zig.Binder
import BlockSynth.Proofs.Zig.Mention
import BlockSynth.Zig.Target

/-! # What the Zig emitters see to

An emitter requires what the helper mentions that it is about to ask for, which is one of a fixed
stock, and defines a procedure under the name that it has been given for it, with parameters that
are variables. The helper that removes an item from the end of a list is the only exception: it
mentions the standard library, and nothing requires that for it.
-/
namespace BlockSynth.Zig

open Script

/-! ### The stock of helpers -/

/-- The keys and templates of the helpers that need no allocator. -/
def unallocated : List (String × String) :=
  [("math_isPrime", isPrime), ("math_random_int", randomIntTemplate), ("math_sum", sumTemplate),
    ("math_min", minTemplate), ("math_max", maxTemplate), ("math_mean", meanTemplate),
    ("math_standard_deviation", deviationTemplate), ("math_random_item", randomItemTemplate),
    ("text_count", countTemplate), textFinder false,
    textFinder true, itemFinder false, itemFinder true,
    ("text_random_letter", randomLetterTemplate), ("text_get_from_end", letterFromEndTemplate),
    ("lists_get_from_end", itemFromEndTemplate), ("lists_remove_from_end", removeFromEndTemplate),
    ("lists_get_random_item", anyItemTemplate), ("lists_remove_random_item", removeAnyTemplate),
    ("text_get_substring", subtextTemplate)]

/-- Those of the helpers that are asked for behind the allocator. -/
def allocated : List (String × String) :=
  [("math_median", medianTemplate), ("math_modes", modesTemplate),
    ("text_toTitleCase", titleCaseTemplate), ("text_prompt", promptTemplate),
    ("text_reverse", reverseTextTemplate), ("lists_create_with", copyTemplate),
    ("lists_repeat", repeatTemplate), ("lists_sort", sortTemplate "asc"),
    ("lists_sort", sortTemplate "desc"), ("lists_split", splitTemplate),
    ("lists_reverse", reverseListTemplate), ("lists_get_sublist", sublistTemplate),
    ("colour_random", randomColourTemplate), ("colour_rgb", mixTemplate),
    ("colour_blend", blendTemplate)]

/-- A helper of the stock has all that it mentions, with the one exception. -/
structure Covered (notes : Notes) (key template : String) : Prop where
  stocked : (key, template) ∈ unallocated ++ allocated
  std : "std" ∈ notes.tags ∨ Omits "std." key template ∨ template = removeFromEndTemplate
  allocator : "allocator" ∈ notes.tags ∨ Omits "allocator" key template

/-! ### The rules -/

/-- A name and a text under which a procedure may be defined. -/
structure Introduced (notes : Notes) (name text : String) : Prop where
  named : (.procedure, name) ∈ notes.words
  parameters :
    ∃ words, (∀ word ∈ words, (.variable, word) ∈ notes.words) ∧ IsProcedure name words text

def supply : Rules where
  helper := Covered
  require tag := tag = "std" ∨ tag = "allocator"
  define := Introduced

@[simp] theorem supply_helper : supply.helper = Covered := rfl

@[simp] theorem supply_require (tag : String) :
    supply.require tag ↔ tag = "std" ∨ tag = "allocator" := Iff.rfl

@[simp] theorem supply_define : supply.define = Introduced := rfl

/-- An emitter that keeps to these rules at every node. -/
def Careful (config : Config) (emitter : Emitter) : Prop :=
  ∀ node, (emitter.script config node).Heeds supply (fun _ _ => True) {}

variable {α : Type} {notes : Notes} {goal : Notes → α → Prop} {config : Config}

@[simp] theorem heeds_unknownOption (node : Node) (field : String) :
    (unknownOption node field).Heeds supply goal notes := trivial

@[simp] theorem heeds_option (node : Node) (field : String) {goal : Notes → String → Prop} :
    (option node field).Heeds supply goal notes ↔ ∀ text,
      node.fieldText field = some text → goal notes text := by
  unfold option
  split
  · rename_i text htext
    simp [htext]
  · rename_i htext
    simp [htext]

@[simp] theorem heeds_choose (node : Node) (field : String) (choice : Option α) :
    (choose node field choice).Heeds supply goal notes ↔ ∀ answer,
      choice = some answer → goal notes answer := by
  cases choice <;> simp [choose]

@[simp] theorem heeds_requireStd {goal : Notes → Unit → Prop} :
    requireStd.Heeds supply goal notes ↔ goal { notes with tags := "std" :: notes.tags } () := by
  simp [requireStd]

@[simp] theorem heeds_requireAllocator {goal : Notes → Unit → Prop} :
    requireAllocator.Heeds supply goal notes ↔
      goal { notes with tags := "allocator" :: "std" :: notes.tags } () := by
  simp [requireAllocator]

@[simp] theorem heeds_variableOf (node : Node) {goal : Notes → String → Prop}
    (h : ∀ word, goal { notes with words := (.variable, word) :: notes.words } word) :
    (variableOf node).Heeds supply goal notes := by
  simp [variableOf, h]

@[simp] theorem heeds_zigCache (code name : String) {goal : Notes → Cached → Prop}
    (h : ∀ cached, goal notes cached) : (cache code name).Heeds supply goal notes :=
  heeds_cache declareConst code name h

@[simp] theorem heeds_itemsOr (slot : String)
    {goal : Notes → String → Prop} (h : ∀ code, goal notes code) :
    (itemsOr slot).Heeds supply goal notes := by
  simp only [itemsOr, heeds_bind, heeds_askValue]
  intro code
  cases code with
  | some list => exact h _
  | none => exact h _

/-- A list that is missing brings in the allocator. -/
@[simp] theorem heeds_listOr (slot : String) {goal : Notes → String → Prop} :
    (listOr slot).Heeds supply goal notes ↔
      (∀ code, goal notes code) ∧
      goal { notes with tags := "allocator" :: "std" :: notes.tags } newList := by
  simp only [listOr, heeds_bind, heeds_askValue]
  constructor
  · exact fun h => ⟨fun code => h (some code), by simpa using h none⟩
  · rintro ⟨hsome, hnone⟩ code
    cases code with
    | some list => exact hsome list
    | none => simpa using hnone

/-! ### Helpers with all that they mention -/

/-- Behind the allocator, whatever a helper mentions is there. -/
theorem covered_of_allocator {key template : String} (h : (key, template) ∈ allocated)
    {notes : Notes} (hstd : "std" ∈ notes.tags) (hallocator : "allocator" ∈ notes.tags) :
    Covered notes key template :=
  ⟨List.mem_append_right _ h, .inl hstd, .inl hallocator⟩

/-! ### The families -/

@[simp] theorem heeds_conditionalArms (lead : String) {goal : Notes → List String → Prop}
    (h : ∀ arms, goal notes arms) (numbers : List Nat) :
    (conditionalArms lead numbers).Heeds supply goal notes := by
  induction numbers generalizing goal with
  | nil => exact h []
  | cons n rest ih =>
    simp only [conditionalArms, heeds_bind, heeds_valueOr, heeds_askStatements]
    exact fun condition branch => ih fun arms => h _

theorem careful_choices : ∀ entry ∈ choices, Careful config entry.2 := by
  simp [choices, Careful, conditional, compare, connect, negate, boolean, null, ternary]

@[simp] theorem heeds_cacheBound (code name : String) {goal : Notes → Cached → Prop}
    (h : ∀ cached, goal notes cached) : (cacheBound code name).Heeds supply goal notes := by
  simp [cacheBound, h]

theorem careful_countLoop : Careful config ⟨countLoop, false⟩ := by
  intro node
  simp only [countLoop, heeds_bind, heeds_valueOr, heeds_askLoopBody]
  refine heeds_variableOf node fun name start finish step body => ?_
  split <;> simp

theorem careful_iterations : ∀ entry ∈ iterations, Careful config entry.2 := by
  simp only [iterations, List.forall_mem_cons, careful_countLoop]
  simp [Careful, repeatLoop, repeatTimes, whileLoop, eachLoop, jump]

theorem careful_bindings : ∀ entry ∈ bindings, Careful config entry.2 := by
  simp [bindings, Careful, getVariable, setVariable, changeVariable]

theorem careful_devices : ∀ entry ∈ devices, Careful config entry.2 := by
  simp [devices, Careful, every, messageField, readSensor, transmit, composeMessage]

theorem careful_palette : ∀ entry ∈ palette, Careful config entry.2 := by
  have hrandom := @covered_of_allocator "colour_random" randomColourTemplate (by simp [allocated])
  have hmix := @covered_of_allocator "colour_rgb" mixTemplate (by simp [allocated])
  have hblend := @covered_of_allocator "colour_blend" blendTemplate (by simp [allocated])
  simp [palette, Careful, pickColour, randomColour, mixColour, blendColours, hrandom, hmix, hblend]

theorem sort_mem_allocated {direction : Option Binary64}
    {order : String} (h : sortOrder? direction = some order) :
    ("lists_sort", sortTemplate order) ∈ allocated := by
  unfold sortOrder? at h
  split at h
  all_goals simp only [Option.some.injEq, reduceCtorEq] at h
  all_goals subst h
  all_goals simp [allocated]

theorem careful_sortList : Careful config ⟨sortList, false⟩ := by
  intro node
  simp only [sortList, heeds_bind, heeds_option, heeds_choose]
  intro name _ _ _ order horder
  refine heeds_itemsOr "LIST" fun items => ?_
  simp only [heeds_requireAllocator, heeds_askHelper]
  exact ⟨covered_of_allocator (sort_mem_allocated horder) (by simp) (by simp), by simp⟩

theorem covered_copy {notes : Notes} (hstd : "std" ∈ notes.tags)
    (hallocator : "allocator" ∈ notes.tags) :
    Covered notes "lists_create_with" copyTemplate :=
  covered_of_allocator (by simp [allocated]) hstd hallocator

theorem careful_sequences : ∀ entry ∈ sequences, Careful config entry.2 := by
  have hrepeat := @covered_of_allocator "lists_repeat" repeatTemplate (by simp [allocated])
  have hsplit := @covered_of_allocator "lists_split" splitTemplate (by simp [allocated])
  have hreverse := @covered_of_allocator "lists_reverse" reverseListTemplate (by simp [allocated])
  simp only [sequences, List.forall_mem_cons, careful_sortList]
  simp [Careful, emptyList, listOf, copyItems, covered_copy, repeatItem, listLength, listIsEmpty,
    splitOrJoin, reverseList, hrepeat, hsplit, hreverse]

theorem careful_defineProcedure : Careful config ⟨defineProcedure, true⟩ := by
  intro node
  simp only [defineProcedure, heeds_bind, heeds_option, heeds_procedureName,
    heeds_askStatements, heeds_askValue]
  intro title _ name branch result
  refine heeds_variableNames (fun words => ?_) node.mutation.params
  simp only [heeds_defineText, supply_define, heeds_pure, and_true]
  have hreturns : (if result.isSome then "!f32" else "!void") ∈ ["!f32", "!void"] := by
    split <;> simp
  exact ⟨by simp, words, by simp, node, _, _, hreturns, rfl⟩

theorem careful_routines : ∀ entry ∈ routines, Careful config entry.2 := by
  simp only [routines, List.forall_mem_cons, careful_defineProcedure]
  simp [Careful, callForValue, callForEffect, callCode, returnIf]

/-! ### Helpers that need no allocator -/

set_option synthInstance.maxSize 400 in
theorem omits_allocator {key template : String} (h : (key, template) ∈ unallocated) :
    Omits "allocator" key template := by
  suffices hall : ∀ entry ∈ unallocated,
      Omits "allocator" entry.1 entry.2 from hall (key, template) h
  simp only [unallocated, List.forall_mem_cons, List.not_mem_nil,
    false_imp_iff, implies_true, and_true, isPrime, randomIntTemplate,
    sumTemplate, minTemplate, maxTemplate, meanTemplate, deviationTemplate,
    randomItemTemplate, guardEmpty, countTemplate, textFinder, itemFinder, findTemplate, if_true,
    Bool.false_eq_true, if_false, randomLetterTemplate, letterFromEndTemplate, itemFromEndTemplate,
    removeFromEndTemplate, anyItemTemplate, removeAnyTemplate, subtextTemplate,
    sliceBounds, sliceParameters]
  refine ⟨?_, ?_, ?_, ?_, ?_, ?_, ?_, ?_, ?_, ?_, ?_, ?_, ?_, ?_, ?_, ?_, ?_, ?_, ?_, ?_⟩
  all_goals exact omits_of_verbatim (by decide +kernel)

/-- Two of them do without the standard library as well. -/
theorem omits_std : Omits "std." "text_get_from_end" letterFromEndTemplate ∧
    Omits "std." "lists_get_from_end" itemFromEndTemplate := by
  unfold letterFromEndTemplate itemFromEndTemplate
  exact ⟨omits_of_verbatim (by decide +kernel), omits_of_verbatim (by decide +kernel)⟩

theorem covered_of_std {notes : Notes} {key template : String} (h : (key, template) ∈ unallocated)
    (hstd : "std" ∈ notes.tags) : Covered notes key template :=
  ⟨List.mem_append_left _ h, .inl hstd, .inr (omits_allocator h)⟩

theorem covered_letterFromEnd : Covered notes "text_get_from_end" letterFromEndTemplate :=
  ⟨by simp [unallocated], .inr (.inl omits_std.1), .inr (omits_allocator (by simp [unallocated]))⟩

theorem covered_itemFromEnd : Covered notes "lists_get_from_end" itemFromEndTemplate :=
  ⟨by simp [unallocated], .inr (.inl omits_std.2), .inr (omits_allocator (by simp [unallocated]))⟩

theorem covered_removeFromEnd : Covered notes "lists_remove_from_end" removeFromEndTemplate :=
  ⟨by simp [unallocated], .inr (.inr rfl), .inr (omits_allocator (by simp [unallocated]))⟩

theorem aggregate_mem_allocated {name : String} {aggregate : Aggregate}
    (h : aggregate? name = some aggregate) (hfallible : aggregate.fallible = true) :
    (aggregate.key, aggregate.template) ∈ allocated := by
  unfold aggregate? at h
  split at h
  all_goals simp only [Option.some.injEq, reduceCtorEq] at h
  all_goals subst h
  all_goals simp_all [allocated]

theorem aggregate_mem_unallocated {name : String} {aggregate : Aggregate}
    (h : aggregate? name = some aggregate) (hfallible : aggregate.fallible = false) :
    (aggregate.key, aggregate.template) ∈ unallocated := by
  unfold aggregate? at h
  split at h
  all_goals simp only [Option.some.injEq, reduceCtorEq] at h
  all_goals subst h
  all_goals simp_all [unallocated]

theorem careful_number : Careful config ⟨number, false⟩ := by
  intro node
  simp only [number]
  split <;> simp

theorem careful_apply : Careful config ⟨apply, false⟩ := by
  intro node
  simp only [apply, heeds_bind, heeds_option, heeds_ite]
  refine fun name _ => ⟨by simp, fun _ => ?_⟩
  split
  · simp
  · simp only [libraryFunction, heeds_bind, heeds_requireStd, heeds_ite]
    refine ⟨by simp, fun _ => ?_⟩
    split <;> simp

theorem careful_testProperty : Careful config ⟨testProperty, false⟩ := by
  intro node
  have hprime : Covered { tags := ["std"] } "math_isPrime" isPrime :=
    covered_of_std (by simp [unallocated]) List.mem_cons_self
  simp only [testProperty, heeds_bind, heeds_option]
  intro property _
  split
  · simp
  · simp
  · simp [divisible, prime, hprime]

theorem careful_constrain : Careful config ⟨constrain, false⟩ := by
  intro node
  simp only [constrain, heeds_bind, heeds_valueOr, heeds_askValue]
  intro value low high
  cases high <;> simp

theorem careful_arithmetic : ∀ entry ∈ arithmetic, Careful config entry.2 := by
  have hrandom : Covered { tags := ["std"] } "math_random_int" randomIntTemplate :=
    covered_of_std (by simp [unallocated]) List.mem_cons_self
  simp only [arithmetic, List.forall_mem_cons, careful_number, careful_apply, careful_testProperty,
    careful_constrain]
  simp [Careful, operate, power, constant, modulo, randomInt, randomFraction, angle, hrandom]

theorem careful_statistics : ∀ entry ∈ statistics, Careful config entry.2 := by
  simp only [statistics, List.forall_mem_singleton]
  intro node
  simp only [aggregateList, heeds_bind, heeds_option, heeds_choose, heeds_ite,
    heeds_requireAllocator, heeds_requireStd, heeds_askHelper]
  intro name _ aggregate haggregate
  refine ⟨fun hfallible => ⟨?_, by simp⟩, fun hfallible => ⟨?_, by simp⟩⟩
  · exact covered_of_allocator (aggregate_mem_allocated haggregate hfallible) (by simp) (by simp)
  · exact covered_of_std (aggregate_mem_unallocated haggregate (by simpa using hfallible))
      List.mem_cons_self

theorem careful_changeCase : Careful config ⟨changeCase, false⟩ := by
  intro node
  simp only [changeCase, heeds_bind, heeds_option, heeds_choose, heeds_valueOr,
    heeds_requireAllocator]
  intro name _ letterCase _ text
  have htitle := @covered_of_allocator "text_toTitleCase" titleCaseTemplate (by simp [allocated])
  cases letterCase <;> simp [htitle]

theorem careful_wordings : ∀ entry ∈ wordings, Careful config entry.2 := by
  have hcount : Covered { tags := ["std"] } "text_count" countTemplate :=
    covered_of_std (by simp [unallocated]) List.mem_cons_self
  have hprompt := @covered_of_allocator "text_prompt" promptTemplate (by simp [allocated])
  have hreverse := @covered_of_allocator "text_reverse" reverseTextTemplate (by simp [allocated])
  simp only [wordings, List.forall_mem_cons, careful_changeCase]
  simp [Careful, textLiteral, textLines, joinText, appendText, textLength, textIsEmpty, trimText,
    print, prompt, promptMessage, hprompt, countText, hcount, replaceText, reverseText, hreverse]

theorem careful_findText : Careful config ⟨findText, false⟩ := by
  intro node
  simp only [findText, heeds_bind, heeds_option, heeds_map, heeds_choose, heeds_valueOr,
    heeds_requireStd, heeds_askHelper]
  intro name _ last _ sub text
  refine ⟨covered_of_std ?_ List.mem_cons_self, by simp⟩
  cases last <;> simp [unallocated]

theorem careful_findItem : Careful config ⟨findItem, false⟩ := by
  intro node
  simp only [findItem, heeds_bind, heeds_option, heeds_map, heeds_choose, heeds_valueOr,
    heeds_requireStd, heeds_askHelper]
  intro name _ last _ item
  refine heeds_itemsOr "VALUE" fun items => ?_
  refine ⟨covered_of_std ?_ List.mem_cons_self, by simp⟩
  cases last <;> simp [unallocated]

theorem careful_letterAt : Careful config ⟨letterAt, false⟩ := by
  intro node
  have hrandom : Covered { tags := ["std"] } "text_random_letter" randomLetterTemplate :=
    covered_of_std (by simp [unallocated]) List.mem_cons_self
  simp only [letterAt, heeds_bind, heeds_valueOr, heeds_pure]
  intro text
  unfold letterCode
  split <;> simp [atStart, atEnd, covered_letterFromEnd, hrandom]

@[simp] theorem heeds_randomIndex (list : String) {goal : Notes → String × String → Prop}
    (h : ∀ answer, goal { notes with tags := "std" :: notes.tags } answer) :
    (randomIndex list).Heeds supply goal notes := by
  simp [randomIndex, h]

theorem heeds_accessComputed (access : Access) (position : Position) (list : String) :
    (accessComputed config access position list).Heeds supply (fun _ _ => True) notes := by
  simp only [accessComputed, heeds_ite]
  refine ⟨by simp, fun _ => ?_⟩
  cases access <;> simp [atEnd, covered_itemFromEnd, covered_removeFromEnd]

theorem heeds_accessDirect (access : Access) (position : Position) (list : String) :
    (accessDirect config access position list).Heeds supply (fun _ _ => True) notes := by
  have hget : Covered { notes with tags := "std" :: notes.tags } "lists_get_random_item"
      anyItemTemplate :=
    covered_of_std (by simp [unallocated]) List.mem_cons_self
  have hremove : Covered { notes with tags := "std" :: notes.tags } "lists_remove_random_item"
      removeAnyTemplate :=
    covered_of_std (by simp [unallocated]) List.mem_cons_self
  cases position <;> cases access <;> simp [accessDirect, atStart, atEnd, hget, hremove]

theorem careful_getItem : Careful config ⟨getItem, false⟩ := by
  intro node
  simp [getItem, heeds_accessComputed, heeds_accessDirect]

theorem careful_setItem : Careful config ⟨setItem, false⟩ := by
  intro node
  simp only [setItem, heeds_bind, heeds_choose]
  intro insert _ position _
  cases position <;> simp [writable, writeItem, atStart, atEnd]

theorem careful_positions : ∀ entry ∈ positions, Careful config entry.2 := by
  simp only [positions, List.forall_mem_cons, List.not_mem_nil, false_imp_iff,
    implies_true, and_true]
  exact ⟨careful_findText, careful_findItem, careful_letterAt, careful_getItem, careful_setItem⟩

theorem heeds_sliceInPlace (items : String) (start : SliceStart) (finish : SliceEnd)
    {goal : Notes → String → Prop} (h : ∀ code, goal notes code) :
    (sliceInPlace config items start finish).Heeds supply goal notes := by
  cases start <;> cases finish <;> simp [sliceInPlace, sliceFrom, h]

theorem heeds_sliceThrough {key template : String} (items : String)
    (start : SliceStart) (finish : SliceEnd) (h : Covered notes key template) :
    (sliceThrough config key template items start finish).Heeds supply (fun _ _ => True) notes := by
  simp [sliceThrough, h]

theorem careful_slices : ∀ entry ∈ slices, Careful config entry.2 := by
  have hsubtext : Covered { tags := ["std"] } "text_get_substring" subtextTemplate :=
    covered_of_std (by simp [unallocated]) List.mem_cons_self
  have hsublist := @covered_of_allocator "lists_get_sublist" sublistTemplate (by simp [allocated])
  simp [slices, Careful, subtext, sublist, sliceEnds, copyItems, heeds_sliceInPlace,
    heeds_sliceThrough, hsubtext, hsublist, covered_copy]

theorem careful_catalog (config : Config) : catalog.All (Careful config) := by
  have hempty : Catalog.All (Careful config) {} := List.forall_mem_nil _
  refine (hempty.registerAll ?_).withAliases aliases
  simp only [emitters, List.forall_mem_append]
  exact ⟨⟨⟨⟨⟨⟨⟨⟨⟨⟨⟨careful_choices, careful_iterations⟩, careful_arithmetic⟩, careful_statistics⟩,
    careful_wordings⟩, careful_positions⟩, careful_slices⟩, careful_sequences⟩, careful_palette⟩,
    careful_bindings⟩, careful_routines⟩, careful_devices⟩

end BlockSynth.Zig
