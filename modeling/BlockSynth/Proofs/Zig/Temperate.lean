import BlockSynth.Proofs.Graph.Node
import BlockSynth.Proofs.Zig.Moderate
import BlockSynth.Proofs.Zig.Still

/-! # Emitters that give no extreme integer

Most emitters answer with code that is no integer literal at all. Those of numbers,
signs, names and choices answer with moderate code if their slots do, and so does
every node whose numbers are doubles.
-/
namespace BlockSynth.Zig

open Chars Script

/-! ### Emitters of other code -/

/-- An emission that is no integer literal. -/
def Alien : Emission → Prop
  | .value code _ => Foreign code
  | _ => True

@[simp] theorem alien_value (code : String) (rank : Rank) :
    Alien (.value code rank) ↔ Foreign code := Iff.rfl

@[simp] theorem alien_statement (code : String) : Alien (.statement code) := trivial

@[simp] theorem alien_ite (c : Prop) [Decidable c] (emission other : Emission) :
    Alien (if c then emission else other) ↔ (c → Alien emission) ∧ (¬c → Alien other) := by
  split <;> simp_all

variable {config : Config}

/-- An emitter of code that is no integer literal, whatever it is answered. -/
def Strange (config : Config) (emitter : Emitter) : Prop :=
  ∀ node, (emitter.script config node).Calm Alien

@[simp] theorem foreign_quote (raw : String) : Foreign (quote raw) := by
  have hmem : '"' ∈ (quote raw).toList := by simp [quote, QuoteStyle.quote, Chars.quote, quotes]
  exact foreign_of_mem hmem (by decide) (by decide) (by decide)

@[simp] theorem foreign_join_cons (separator : String)
    {code : String} (h : Foreign code) (rest : List String) :
    Foreign (Text.join separator (code :: rest)) := by
  cases rest with
  | nil => exact h
  | cons next more => exact foreign_append (.inl (foreign_append (.inl h)))

@[simp] theorem foreign_quoteLines (raw : String) : Foreign (quotes.quoteLines raw) := by
  unfold QuoteStyle.quoteLines
  cases hlines : splitLines raw.toList with
  | nil => exact absurd hlines (splitLines_ne_nil _)
  | cons line rest => exact foreign_join_cons _ (foreign_quote _) _

/-! ### The families -/

theorem strange_sequences : ∀ entry ∈ sequences, Strange config entry.2 := by
  simp +decide [sequences, Strange, emptyList, listOf, copyItems, repeatItem, listLength,
    listIsEmpty, sortList, splitOrJoin, reverseList]

theorem strange_palette : ∀ entry ∈ palette, Strange config entry.2 := by
  simp +decide [palette, Strange, pickColour, randomColour, mixColour, blendColours]

@[simp] theorem foreign_formatCall (arguments : List String) : Foreign (formatCall arguments) := by
  have hhead : Foreign "try std.fmt.allocPrint(allocator, \"" := by decide
  have hpattern :=
    @foreign_append _ (String.join (arguments.map fun _ => "\x7bany\x7d")) (.inl hhead)
  exact foreign_append (.inl (foreign_append (.inl (foreign_append (.inl hpattern)))))

theorem strange_joinText : Strange config ⟨joinText, false⟩ := by
  intro node
  simp only [joinText, calm_ite]
  refine ⟨fun _ => foreign_quote "", fun _ => ?_⟩
  rw [calm_bind]
  exact calm_valuesOr _ _ (fun parts => foreign_formatCall parts) _

theorem strange_changeCase : Strange config ⟨changeCase, false⟩ := by
  intro node
  simp only [changeCase, calm_bind, calm_option, calm_choose, calm_valueOr, calm_requireAllocator]
  intro name _ letterCase _ text
  cases letterCase <;> simp +decide

theorem strange_wordings : ∀ entry ∈ wordings, Strange config entry.2 := by
  simp only [wordings, List.forall_mem_cons, strange_joinText, strange_changeCase]
  simp +decide [Strange, textLiteral, textLines, appendText, textLength, textIsEmpty, trimText,
    print, prompt, promptMessage, countText, replaceText, reverseText]

theorem strange_statistics : ∀ entry ∈ statistics, Strange config entry.2 := by
  simp +decide [statistics, Strange, aggregateList]

theorem strange_sublist : Strange config ⟨sublist, false⟩ := by
  simp +decide [Strange, sublist, sliceEnds, copyItems, calm_sliceInPlace, sliceThrough]

theorem strange_letterAt : Strange config ⟨letterAt, false⟩ := by
  intro node
  simp only [letterAt, calm_bind, calm_valueOr, calm_pure, alien_value]
  intro text
  unfold letterCode
  split <;> simp +decide [atStart, atEnd]

theorem calm_alien_accessComputed (access : Access) (position : Position) (list : String) :
    (accessComputed config access position list).Calm Alien := by
  simp only [accessComputed, calm_ite]
  refine ⟨fun _ => ?_, fun _ => ?_⟩
  · simp
  · cases access <;> simp +decide [atEnd]

theorem calm_alien_accessDirect (access : Access) (position : Position) (list : String) :
    (accessDirect config access position list).Calm Alien := by
  cases position <;> cases access <;> simp +decide [accessDirect, accessAt, removal, atStart, atEnd]

theorem strange_getItem : Strange config ⟨getItem, false⟩ := by
  intro node
  simp [getItem, calm_alien_accessComputed, calm_alien_accessDirect]

theorem strange_setItem : Strange config ⟨setItem, false⟩ := fun node =>
  calm_setItem node fun _ _ _ => trivial

theorem strange_positions : ∀ entry ∈ positions, Strange config entry.2 := by
  simp only [positions, List.forall_mem_cons, strange_letterAt, strange_getItem, strange_setItem]
  simp +decide [Strange, findText, findItem, foundPosition]

theorem strange_compare : Strange config ⟨compare, false⟩ := by
  intro node
  simp only [compare, calm_bind, calm_option, calm_choose, calm_valueOr, calm_pure, alien_value]
  intro name _ comparison hcomparison a b
  refine foreign_between a ?_ b
  unfold comparison? at hcomparison
  split at hcomparison <;> simp only [Option.some.injEq, reduceCtorEq] at hcomparison
    <;> subst hcomparison <;> decide

theorem strange_connect : Strange config ⟨connect, false⟩ := by
  intro node
  simp only [connect, calm_bind, calm_option, calm_choose, calm_askValue, calm_pure, alien_value]
  intro name _ connective hconnective a b
  refine foreign_between _ ?_ _
  unfold connective? at hconnective
  split at hconnective <;> simp only [Option.some.injEq, reduceCtorEq] at hconnective
    <;> subst hconnective <;> decide

theorem strange_choices : ∀ entry ∈ choices.tail, Strange config entry.2 := by
  simp only [choices, List.tail_cons, List.forall_mem_cons, strange_compare, strange_connect]
  simp +decide [Strange, negate, boolean, null, ternary]

theorem strange_readSensor : Strange config ⟨readSensor, false⟩ := by
  intro node
  simp only [readSensor, calm_done, alien_value, Text.alignComments, Chars.alignComments,
    List.map_cons, String.ofList_toList]
  exact foreign_join_cons _ (by decide) _

theorem strange_devices : ∀ entry ∈ devices.tail, Strange config entry.2 := by
  simp only [devices, List.tail_cons, List.forall_mem_cons, strange_readSensor]
  simp +decide [Strange, messageField, transmit, composeMessage]

theorem strange_routines : ∀ entry ∈ routines.tail, Strange config entry.2 := by
  simp +decide [routines, Strange, returnIf, callForValue, callForEffect, callCode]

theorem strange_constant : Strange config ⟨constant, false⟩ := by
  intro node
  simp only [constant, calm_bind, calm_option, calm_choose, calm_requireStd, calm_pure, alien_value]
  intro name _ code hcode
  unfold constant? at hcode
  split at hcode <;> simp only [Option.some.injEq, reduceCtorEq] at hcode <;> subst hcode <;> decide

theorem strange_testProperty : Strange config ⟨testProperty, false⟩ := by
  intro node
  simp only [testProperty, calm_bind, calm_option]
  intro property _
  split
  · simp +decide
  · rename_i operator _ hoperator
    simp only [calm_bind, calm_valueOr, calm_pure, alien_value]
    refine fun number => foreign_append (.inl (foreign_append (.inr ?_)))
    unfold signTest? at hoperator
    split at hoperator <;> simp only [Option.some.injEq, reduceCtorEq] at hoperator
      <;> subst hoperator <;> decide
  · simp +decide [divisible, prime]

/-- A difference has a sign in it like a literal, but behind a blank. -/
theorem strange_operate : Strange config ⟨operate, false⟩ := by
  intro node
  simp only [operate, calm_bind, calm_option, calm_ite, calm_choose, calm_valueOr,
    calm_pure, alien_value]
  refine fun name _ => ⟨fun _ => by simp +decide [power], fun _ operator hoperator a b => ?_⟩
  unfold operator? at hoperator
  split at hoperator <;> simp only [Option.some.injEq, reduceCtorEq] at hoperator
    <;> subst hoperator
  · exact foreign_between a (by decide) b
  · exact foreign_difference a b
  · exact foreign_between a (by decide) b
  · exact foreign_between a (by decide) b

theorem strange_constrain : Strange config ⟨constrain, false⟩ := by
  intro node
  simp only [constrain, calm_bind, calm_valueOr, calm_askValue]
  intro value low high
  cases high <;> simp +decide

theorem strange_arithmetic : ∀ entry ∈ arithmetic.drop 3, Strange config entry.2 := by
  simp only [arithmetic, List.drop_succ_cons, List.drop_zero, List.forall_mem_cons,
    strange_constant, strange_testProperty, strange_constrain]
  simp +decide [Strange, modulo, randomInt, randomFraction, angle]

/-! ### All emitters -/

/-- An emission that is no extreme integer. -/
def Temperate : Emission → Prop
  | .value code _ => Moderate code
  | _ => True

theorem Alien.temperate {emission : Emission} (h : Alien emission) : Temperate emission := by
  cases emission with
  | value code rank => exact Foreign.moderate h
  | statement code => exact trivial
  | nothing => exact trivial

/-- The terms on which no slot is answered with an extreme integer. -/
def tempering : Terms :=
  { naming.toTerms with value := fun _ code => Moderate code }

/-- The numbers that documents have. -/
def IsDouble : Binary64 → Prop
  | .finite _ significand exponent => Binary64.Canonical significand exponent
  | _ => True

/-- An emitter that answers with no extreme integer, if it writes doubles only and its
slots do not either. -/
def Mild (config : Config) (emitter : Emitter) : Prop :=
  ∀ node, (∀ number, node.fieldNumber "NUM" = some number → IsDouble number) →
    (emitter.script config node).Meets tempering Temperate

variable {α : Type}

theorem meets_any (script : Script α) : script.Meets tempering fun _ => True :=
  script.meets_of_forall (fun _ => trivial) (fun _ => trivial) (fun _ => trivial) fun _ => trivial

theorem temperate_of_calm {script : Script Emission} (h : script.Calm Alien) :
    script.Meets tempering Temperate :=
  (h.mono fun _ => Alien.temperate).meets (fun _ => trivial) fun _ => trivial

theorem Strange.mild {emitter : Emitter} (h : Strange config emitter) : Mild config emitter :=
  fun node _ => temperate_of_calm (h node)

theorem moderate_zero : Moderate "0" := by
  unfold Moderate
  decide

theorem mild_number : Mild config ⟨number, false⟩ := by
  intro node hnode
  show (number config node).Meets tempering Temperate
  have hzero : IsDouble (.zero false) := ⟨by decide, by decide, by decide, .inr rfl⟩
  have hdouble : IsDouble ((node.fieldNumber "NUM").getD (.zero false)) := by
    cases hfield : node.fieldNumber "NUM" with
    | none => exact hzero
    | some number => exact hnode number hfield
  unfold number
  generalize (node.fieldNumber "NUM").getD (.zero false) = value at hdouble
  cases value with
  | nan => exact temperate_of_calm (by simp +decide)
  | infinite negative => exact temperate_of_calm (by simp +decide)
  | finite negative significand exponent => exact moderate_codeText hdouble negative

theorem strange_libraryFunction (node : Node) (name : String) :
    (libraryFunction node name).Calm Alien := by
  simp only [libraryFunction, calm_bind, calm_requireStd, calm_ite]
  refine ⟨by simp +decide, fun _ => ?_⟩
  split <;> simp +decide

theorem mild_apply : Mild config ⟨apply, false⟩ := by
  intro node _
  refine (meets_any (option node "OP")).bind fun name _ => ?_
  split
  · refine (meets_valueOr "NUM" moderate_zero).bind fun operand hoperand => Script.Meets.pure ?_
    exact Moderate.minus hoperand
  · refine temperate_of_calm ?_
    split
    · simp +decide
    · exact strange_libraryFunction node name

theorem strange_bindings : ∀ entry ∈ bindings.tail, Strange config entry.2 := by
  simp [bindings, Strange, setVariable, changeVariable]

theorem mild_getVariable : Mild config ⟨getVariable, false⟩ := by
  intro node _
  have hword : (variableOf node).Meets tempering IsName :=
    (meets_any (option node "VAR")).bind fun name _ => meets_variableName name
  exact hword.bind fun word hname => Script.Meets.pure hname.foreign.moderate

theorem calm_foreign_sliceInPlace (items : String) (start : SliceStart) (finish : SliceEnd) :
    (sliceInPlace config items start finish).Calm Foreign := by
  cases start <;> cases finish <;> simp +decide [sliceInPlace, sliceFrom]

theorem mild_subtext : Mild config ⟨subtext, false⟩ := by
  intro node _
  refine (meets_any (sliceEnds node)).bind fun (start, finish) _ => ?_
  dsimp only
  split
  · have hempty : Moderate emptyText := (foreign_quote "").moderate
    have htext : (valueOr "STRING" .none emptyText).Meets tempering Moderate :=
      meets_valueOr "STRING" hempty
    exact htext.bind fun text hmoderate => Script.Meets.pure hmoderate
  · refine temperate_of_calm ?_
    simp +decide [sliceThrough]
    exact fun text _ => calm_foreign_sliceInPlace text start finish

/-! ### Emitters of statements -/

theorem Mute.mild {emitter : Emitter} (h : Mute config emitter) : Mild config emitter :=
  fun node _ =>
    h.meets node (fun _ => trivial) trivial (fun _ => trivial) (fun _ => trivial) fun _ => trivial

theorem mild_choices : ∀ entry ∈ choices, Mild config entry.2 :=
  List.forall_mem_cons.mpr ⟨mute_conditional.mild, fun entry hentry =>
    (strange_choices entry hentry).mild⟩

theorem mild_arithmetic : ∀ entry ∈ arithmetic, Mild config entry.2 :=
  List.forall_mem_cons.mpr ⟨mild_number, List.forall_mem_cons.mpr ⟨strange_operate.mild,
    List.forall_mem_cons.mpr ⟨mild_apply, fun entry hentry =>
      (strange_arithmetic entry hentry).mild⟩⟩⟩

theorem mild_slices : ∀ entry ∈ slices, Mild config entry.2 :=
  List.forall_mem_cons.mpr ⟨mild_subtext, List.forall_mem_singleton.mpr strange_sublist.mild⟩

theorem mild_bindings : ∀ entry ∈ bindings, Mild config entry.2 :=
  List.forall_mem_cons.mpr ⟨mild_getVariable, fun entry hentry =>
    (strange_bindings entry hentry).mild⟩

theorem mild_routines : ∀ entry ∈ routines, Mild config entry.2 :=
  List.forall_mem_cons.mpr ⟨mute_defineProcedure.mild, fun entry hentry =>
    (strange_routines entry hentry).mild⟩

theorem mild_devices : ∀ entry ∈ devices, Mild config entry.2 :=
  List.forall_mem_cons.mpr ⟨mute_every.mild, fun entry hentry =>
    (strange_devices entry hentry).mild⟩

theorem mild_catalog (config : Config) : catalog.All (Mild config) := by
  have hempty : Catalog.All (Mild config) {} := List.forall_mem_nil _
  refine (hempty.registerAll ?_).withAliases aliases
  simp only [emitters, List.forall_mem_append]
  exact ⟨⟨⟨⟨⟨⟨⟨⟨⟨⟨⟨mild_choices, fun entry hentry => (mute_iterations entry hentry).mild⟩,
    mild_arithmetic⟩, fun entry hentry => (strange_statistics entry hentry).mild⟩,
    fun entry hentry => (strange_wordings entry hentry).mild⟩,
    fun entry hentry => (strange_positions entry hentry).mild⟩, mild_slices⟩,
    fun entry hentry => (strange_sequences entry hentry).mild⟩,
    fun entry hentry => (strange_palette entry hentry).mild⟩, mild_bindings⟩, mild_routines⟩,
    mild_devices⟩

/-! ### Nodes -/

/-- A node that has no numbers but doubles, on it or below it. -/
def OfDoubles (node : Node) : Prop :=
  ∀ each ∈ node.nodes, ∀ number, each.fieldNumber "NUM" = some number → IsDouble number

theorem OfDoubles.input {node inner : Node} (h : OfDoubles node) {slot : String}
    (hinner : node.input slot = some inner) : OfDoubles inner :=
  fun each heach => h each (Node.nodes_input_subset hinner heach)

theorem tempering_kept (config : Config) : tempering.Kept config.indentUnit Named :=
  let kept := (naming_upheld config).toKept
  ⟨kept.resolve, kept.fresh, kept.provide, kept.require, kept.define⟩

theorem keeps_slotCode_of_forall {answer : Option String → Prop} (hnone : answer none)
    {node : Node} {slot : String} {place : Rank}
    (h : ∀ inner, node.input slot = some inner →
      Synth.Keeps Named answer ((inner.offer (setting config)).value place)) :
    Synth.Keeps Named answer (slotCode config node slot place) := by
  rw [slotCode_eq]
  split
  · rename_i inner hinner
    exact h inner hinner
  · exact Synth.Keeps.pure hnone

/-- A run of an emitter whose slots answer with no extreme integers. -/
theorem keeps_temperate {node : Node} {script : Script Emission}
    (hscript : script.Meets tempering Temperate)
    (hslots : ∀ slot place, Synth.Keeps Named (fun code => ∀ text ∈ code, Moderate text)
      (slotCode config node slot place)) :
    Synth.Keeps Named Temperate ((setting config).ask node script) := by
  have hbranches := (naming_upheld config).slotOffers_hold node.statements
  have hchain : ∀ slot, Synth.Keeps Named (fun _ => True)
      (Script.atSlot (slotOffers (setting config) node.statements) slot "" Offer.chain) :=
    fun slot => Contract.Upheld.atSlot hbranches trivial fun offer hoffer => hoffer.chain
  refine (tempering_kept config).run hslots hchain (fun slot => ?_) (fun _ _ => trivial) hscript
  exact Synth.Keeps.of_inside fun stack => Synth.Keeps.inLoop (naming_upheld config).loops
    ((hchain slot).inside (node.id :: stack))

/-- A node whose slots answer with no extreme integers emits none. -/
theorem keeps_emission {node : Node}
    (h : ∀ number, node.fieldNumber "NUM" = some number → IsDouble number)
    (hslots : ∀ slot place, Synth.Keeps Named (fun code => ∀ text ∈ code, Moderate text)
      (slotCode config node slot place)) :
    Synth.Keeps Named Temperate (node.offer (setting config)).emission := by
  cases hfind : (setting config).target.catalog.find? node.kind with
  | none =>
    rw [emission_of_unknown hfind]
    exact Synth.Keeps.throw _
  | some emitter =>
    rw [emission_of_find? hfind]
    exact keeps_temperate
      ((mild_catalog config).find? (catalog_setting config ▸ hfind) node h) hslots

/-- A node answers with no extreme integer. The induction is on the size of the node,
for the operand of a sign. -/
theorem keeps_moderate {node : Node} (h : OfDoubles node) (place : Rank) :
    Synth.Keeps Named (fun code => ∀ text ∈ code, Moderate text)
      ((node.offer (setting config)).value place) := by
  have hslots : ∀ slot place, Synth.Keeps Named (fun code => ∀ text ∈ code, Moderate text)
      (slotCode config node slot place) := fun slot place =>
    keeps_slotCode_of_forall (fun text htext => by simp at htext) fun inner hinner =>
      have := Node.sizeOf_input_lt hinner
      keeps_moderate (h.input hinner) place
  have hemission := keeps_emission (h node node.mem_nodes_self) hslots
  rw [value_offer]
  exact hemission.asValue_of_forall fun code rank htemperate _ =>
    Moderate.wrap htemperate place rank
termination_by sizeOf node

end BlockSynth.Zig
