import BlockSynth.Proofs.Program.Ledger
import BlockSynth.Proofs.Zig.Session
import BlockSynth.Proofs.Zig.Sound.Number
import BlockSynth.Proofs.Zig.Sound.Position
import BlockSynth.Proofs.Zig.Sound.Statement
import BlockSynth.Proofs.Zig.Sound.Text

/-! # The whole catalog keeps the contract

Every emitter of the target fulfils its part, so the contract is upheld in every run.
-/
namespace BlockSynth.Zig

variable {plain : Prop} {own : String → Prop} {config : Config} {fine : String → Prop}

/-- An emitter that does its part for every node. -/
def Truthful (plain : Prop) (own : String → Prop) (config : Config) (emitter : Emitter) : Prop :=
  ∀ node, (emitter.script config node).Meets ((contract plain own config).toTerms.drawing own)
    (Sound (Closing plain own))

/-- An emitter that does its part, and defines nothing. -/
def Dutiful (plain : Prop) (own : String → Prop) (config : Config) (fine : String → Prop)
    (emitter : Emitter) : Prop :=
  ∀ node, Fulfils plain own config (Sound fine) (emitter.script config node)

theorem Dutiful.truthful {emitter : Emitter}
    (h : Dutiful plain own config (Closing plain own) emitter) :
    Truthful plain own config emitter :=
  fun node => h node _ (contract_serves plain own config)

theorem dutiful_choices (h : Fair plain config) :
    ∀ entry ∈ choices, Dutiful plain own config (Closing plain own) entry.2 := by
  simp only [choices, List.forall_mem_cons, List.not_mem_nil, false_imp_iff, implies_true,
    and_true]
  exact ⟨fulfils_conditional h, fulfils_compare, fulfils_connect, fulfils_negate, fulfils_boolean,
    fulfils_null, fulfils_ternary⟩

theorem dutiful_iterations (h : Fair plain config) :
    ∀ entry ∈ iterations, Dutiful plain own config (Closing plain own) entry.2 := by
  simp only [iterations, List.forall_mem_cons, List.not_mem_nil, false_imp_iff, implies_true,
    and_true]
  exact ⟨fulfils_repeatLoop, fulfils_whileLoop, fulfils_countLoop h,
    fulfils_eachLoop h, fulfils_jump h⟩

theorem dutiful_arithmetic (h : Fair plain config) :
    ∀ entry ∈ arithmetic, Dutiful plain own config fine entry.2 := by
  simp only [arithmetic, List.forall_mem_cons, List.not_mem_nil, false_imp_iff, implies_true,
    and_true]
  exact ⟨fulfils_number, fulfils_operate, fulfils_apply, fulfils_constant, fulfils_testProperty h,
    fulfils_modulo, fulfils_constrain, fulfils_randomInt h, fulfils_randomFraction, fulfils_angle⟩

theorem dutiful_statistics (h : Fair plain config) :
    ∀ entry ∈ statistics, Dutiful plain own config fine entry.2 := by
  simp only [statistics, List.forall_mem_cons, List.not_mem_nil, false_imp_iff, implies_true,
    and_true]
  exact fulfils_aggregateList h

theorem dutiful_wordings (h : Fair plain config) :
    ∀ entry ∈ wordings, Dutiful plain own config (Closing plain own) entry.2 := by
  simp only [wordings, List.forall_mem_cons, List.not_mem_nil, false_imp_iff, implies_true,
    and_true]
  exact ⟨fulfils_textLiteral, fulfils_textLines, fulfils_joinText,
    cumulative_closing.appendText, fulfils_textLength, fulfils_textIsEmpty,
    fulfils_changeCase h, fulfils_trimText, cumulative_closing.print, fulfils_prompt h,
    fulfils_countText h, fulfils_replaceText, fulfils_reverseText h⟩

theorem dutiful_positions (h : Fair plain config) :
    ∀ entry ∈ positions, Dutiful plain own config (Closing plain own) entry.2 := by
  simp only [positions, List.forall_mem_cons, List.not_mem_nil, false_imp_iff, implies_true,
    and_true]
  exact ⟨fulfils_findText h, fulfils_findItem h, fulfils_letterAt h, cumulative_closing.getItem h,
    cumulative_closing.setItem⟩

theorem dutiful_slices (h : Fair plain config) :
    ∀ entry ∈ slices, Dutiful plain own config fine entry.2 := by
  simp only [slices, List.forall_mem_cons, List.not_mem_nil, false_imp_iff, implies_true,
    and_true]
  exact ⟨fulfils_subtext h, fulfils_sublist h⟩

theorem dutiful_sequences (h : Fair plain config) :
    ∀ entry ∈ sequences, Dutiful plain own config fine entry.2 := by
  simp only [sequences, List.forall_mem_cons, List.not_mem_nil, false_imp_iff, implies_true,
    and_true]
  exact ⟨fulfils_emptyList, fulfils_listOf h, fulfils_repeatItem h, fulfils_listLength,
    fulfils_listIsEmpty, fulfils_sortList h, fulfils_splitOrJoin h, fulfils_reverseList h⟩

theorem dutiful_palette (h : Fair plain config) :
    ∀ entry ∈ palette, Dutiful plain own config fine entry.2 := by
  simp only [palette, List.forall_mem_cons, List.not_mem_nil, false_imp_iff, implies_true,
    and_true]
  exact ⟨fulfils_pickColour, fulfils_randomColour h, fulfils_mixColour h, fulfils_blendColours h⟩

theorem dutiful_bindings :
    ∀ entry ∈ bindings, Dutiful plain own config (Closing plain own) entry.2 := by
  simp only [bindings, List.forall_mem_cons, List.not_mem_nil, false_imp_iff, implies_true,
    and_true]
  exact ⟨fulfils_getVariable, cumulative_closing.setVariable, cumulative_closing.changeVariable⟩

theorem truthful_routines (h : Fair plain config) :
    ∀ entry ∈ routines, Truthful plain own config entry.2 := by
  simp only [routines, List.forall_mem_cons, List.not_mem_nil, false_imp_iff, implies_true,
    and_true]
  exact ⟨meets_defineProcedure h, Dutiful.truthful fulfils_callForValue,
    Dutiful.truthful cumulative_closing.callForEffect, Dutiful.truthful (fulfils_returnIf h)⟩

theorem dutiful_devices (h : Fair plain config) :
    ∀ entry ∈ devices, Dutiful plain own config (Closing plain own) entry.2 := by
  simp only [devices, List.forall_mem_cons, List.not_mem_nil, false_imp_iff, implies_true,
    and_true]
  exact ⟨fulfils_every h, fulfils_messageField, fulfils_readSensor h, cumulative_closing.transmit,
    fulfils_composeMessage h⟩

theorem truthful_catalog (h : Fair plain config) : catalog.All (Truthful plain own config) := by
  have hempty : Catalog.All (Truthful plain own config) {} := List.forall_mem_nil _
  refine (hempty.registerAll ?_).withAliases aliases
  have htruthful : ∀ {entries : List (String × Emitter)},
      (∀ entry ∈ entries, Dutiful plain own config (Closing plain own) entry.2) →
        ∀ entry ∈ entries, Truthful plain own config entry.2 :=
    fun hentries entry hentry => (hentries entry hentry).truthful
  simp only [emitters, List.forall_mem_append]
  exact ⟨⟨⟨⟨⟨⟨⟨⟨⟨⟨⟨htruthful (dutiful_choices h), htruthful (dutiful_iterations h)⟩,
    htruthful (dutiful_arithmetic h)⟩, htruthful (dutiful_statistics h)⟩,
    htruthful (dutiful_wordings h)⟩,
    htruthful (dutiful_positions h)⟩, htruthful (dutiful_slices h)⟩,
    htruthful (dutiful_sequences h)⟩,
    htruthful (dutiful_palette h)⟩, htruthful dutiful_bindings⟩, truthful_routines h⟩,
    htruthful (dutiful_devices h)⟩

/-! ### Rendered code -/

theorem atom_wrapped {code : String} {rank : Rank} (h : Operand rank code.toList) :
    Atom (s!"({code})").toList := by
  have hcode : Spells code [.operand rank] := spells_iff.mpr h
  have hloose : Spells code [.operand .none] := spells_operand_none code
  exact operand_of_spells _ (by decide)

/-- Code with the parentheses that its place asks for. -/
theorem fits_wrap {code : String} {rank : Rank} (h : Operand rank code.toList) (place : Rank) :
    Fits (fun operator => place.needsParens operator = false) (wrap place rank code).toList := by
  unfold wrap
  split
  · exact (atom_wrapped h).toFits.mono fun operator =>
      Rank.needsParens_of_le (Rank.needsParens_atomic place)
  · rename_i hparens
    have hplace : place.needsParens rank = false := by simpa using hparens
    exact h.toFits.mono fun operator => Rank.needsParens_of_le hplace

theorem tame_wrap {code : String} {rank : Rank} (h : Operand rank code.toList) (place : Rank) :
    Tame (wrap place rank code).toList := by
  unfold wrap
  split
  · exact (atom_wrapped h).tame
  · exact h.tame

theorem operand_wrap {code : String} {rank : Rank} (h : Operand rank code.toList) (place : Rank) :
    Operand place (wrap place rank code).toList :=
  ⟨(fits_wrap h place).mono fun _ => Rank.level_le_of_needsParens, tame_wrap h place⟩

theorem closed_prefixLines {unit code : String}
    (hunit : IsIndent unit.toList) (h : Closed code.toList) :
    Closed (Text.prefixLines unit code).toList := by
  rw [Text.prefixLines, String.toList_ofList]
  exact Closed.of_alike (alike_prefixLines hunit _) h

theorem Fair.contained_statement (h : Fair plain config) (hp : plain)
    (node : Node) {code : String} (hcode : Contained own code) {text : String}
    (htext : (Emission.statement code).asStatement (setting config) node = .ok text) :
    Contained own text := by
  obtain rfl := Except.ok.inj htext
  refine (contained_comments node).append ?_
  split
  · exact hcode
  · exact ((h.contained_before hp node.id).append hcode).append (h.contained_after hp node.id)

theorem Fair.contained_naked (h : Fair plain config) (hp : plain) (node : Node)
    {code : String} {rank : Rank} (hcode : Operand rank code.toList) :
    Contained own ((setting config).comments node ++ (setting config).before node.id ++
      (setting config).target.nakedValue code ++ (setting config).after node.id) := by
  have hspells : Spells code [.operand rank] := spells_iff.mpr hcode
  have hloose : Spells code [.operand .none] := spells_operand_none code
  have hnaked : Contained own ((setting config).target.nakedValue code) :=
    contained_of_spells s!"_ = {code};\n" (by decide)
  exact (((contained_comments node).append (h.contained_before hp node.id)).append hnaked).append
    (h.contained_after hp node.id)

/-- A trap runs at the top of a round, with what would come after the loop, and what
would come before it at the end. -/
theorem Fair.contained_trapLoop (h : Fair plain config) (hp : plain)
    {body : String} (hbody : Contained own body) (id : String) :
    Contained own (config.trapLoop quotes body id) := by
  have hafter : Contained own (Text.prefixLines config.indentUnit (config.after quotes id)) :=
    (h.contained_after hp id).indent h.indent
  have htop := (hafter.append ((h.contained_trap hp id).indent h.indent)).append hbody
  exact htop.append ((h.contained_before hp id).indent h.indent)

/-! ### Definitions -/

variable {session : Session}

theorem Orderly.insert (h : Orderly plain own session) {key : DefinitionKey} {text : String}
    (hentry : plain → WellDefined own (key, text)) :
    Orderly plain own { session with definitions := session.definitions.insert key text } where
  toNamed := ⟨h.names, h.realized⟩
  definitions hp entry hmem := by
    rcases Definitions.mem_of_mem_insert hmem with hold | rfl
    · exact h.definitions hp entry hold
    · exact hentry hp

theorem Orderly.require (h : Orderly plain own session)
    {tag text : String} (htext : plain → Closed text.toList) :
    Orderly plain own { session with toLedger := session.require tag text } := by
  rcases session.toLedger.require_cases tag text with heq | heq
  · rw [heq]
    exact h
  · rw [heq]
    exact h.insert fun hp => ⟨htext hp, by simp⟩

theorem Orderly.provide (h : Orderly plain own session)
    {key template : String}
    (htemplate : plain → ∀ name : String, IsName name →
      Closed (realizeTemplate config.indentUnit template name).toList) :
    Orderly plain own
      { session with toLedger := (session.provide config.indentUnit key template).2 } := by
  have hnamed := (h.toNamed.provide config.indentUnit key template).2
  cases hlookup : session.helpers.lookup key template with
  | some name =>
    rw [Ledger.provide_of_lookup hlookup]
    exact h
  | none =>
    rw [Ledger.provide_of_not_lookup hlookup] at hnamed ⊢
    have hname : IsName (session.names.distinct key) := (h.names.fresh key).1
    have hentry : plain → WellDefined own (.helper (session.names.distinct key),
        realizeTemplate config.indentUnit template (session.names.distinct key)) :=
      fun hp => ⟨htemplate hp _ hname, by simp⟩
    exact ⟨hnamed, (h.insert hentry).definitions⟩

/-- Whatever words are one's own, the engine does its part. -/
theorem contract_observed (h : Fair plain config) (own : String → Prop) :
    (contract plain own config).Observed (setting config) where
  resolve _ space name hs :=
    ⟨(hs.toNamed.resolve space name).1, (hs.toNamed.resolve space name).2, hs.definitions⟩
  fresh _ name hs := ⟨(hs.toNamed.fresh name).1, (hs.toNamed.fresh name).2, hs.definitions⟩
  provide _ key template ht hs := ⟨(hs.toNamed.provide _ key template).1, hs.provide ht⟩
  require _ _ _ ht hs := hs.require ht
  define _ _ _ ht hs := hs.insert fun hp => ⟨(ht hp).closed, fun _ _ => ht hp⟩
  loops _ _ hs := ⟨⟨hs.names, hs.realized⟩, hs.definitions⟩
  wrap _ _ place he _ := spells_iff.mpr (operand_wrap he place)
  statement emission node text he htext hp := by
    cases emission with
    | value code rank => simp [Emission.asStatement] at htext
    | statement code => exact h.contained_statement hp node (he hp) htext
    | nothing =>
      obtain rfl := Except.ok.inj htext
      exact .empty
  naked node _ _ he _ hp := h.contained_naked hp node he
  chain_nil _ := .empty
  chain_append code more hc hm hp := (hc hp).append (hm hp)
  lines _ _ hc hp := (hc hp).indent h.indent
  loop _ := trivial
  loopBody _ code id hc hp := h.contained_trapLoop hp ((hc hp).indent h.indent) id

/-- The contract is upheld where every word may be drawn. -/
theorem contract_upheld (h : Fair plain config) :
    (contract plain (fun _ => True) config).Upheld (setting config) where
  toObserved := contract_observed h _
  emitter _ _ hfind node := by
    rw [catalog_setting] at hfind
    rw [← Terms.drawing_any (contract plain _ config).toTerms]
    exact (truthful_catalog h).find? hfind node

/-- Whatever is injected, no value exposes anything looser than its rank. -/
theorem keeps_sound (hindent : IsIndent config.indentUnit.toList) (node : Node) :
    Synth.Keeps Named (Sound (Closing False fun _ => True))
      (node.offer (setting config)).emission := by
  have hfair : Fair False config := ⟨hindent, False.elim⟩
  refine ((contract_upheld hfair).offer node).emission.congr fun session => ?_
  exact ⟨fun h => h.toNamed, fun h => ⟨h, False.elim⟩⟩

end BlockSynth.Zig
