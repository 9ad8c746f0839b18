import BlockSynth.Proofs.Name.Registry
import BlockSynth.Proofs.Render
import BlockSynth.Proofs.Zig.Binder
import BlockSynth.Proofs.Zig.Template
import BlockSynth.Zig.Sequence
import BlockSynth.Zig.Target

/-! # The contract of the Zig emitters

A value exposes no operator looser than its rank. Where what is injected closes what it opens and
binds nothing, so do statements, branches and definitions, which bind only words that have been
drawn for them; `plain` stands for that, so that the bounds on values hold without it.
-/
namespace BlockSynth.Zig

structure Uninjected (config : Config) : Prop where
  before : config.beforeStatement = none
  after : config.afterStatement = none
  trap : config.loopTrap = none

/-- What is injected closes all it opens and binds nothing. -/
structure Modest (config : Config) : Prop where
  before : ∀ id, Contained (fun _ => False) (config.before quotes id)
  after : ∀ id, Contained (fun _ => False) (config.after quotes id)
  trap : ∀ id, Contained (fun _ => False) (config.trap quotes id)

/-- A configuration that indents by spaces and tabs, and is modest if plain text is asked for. -/
structure Fair (plain : Prop) (config : Config) : Prop where
  indent : IsIndent config.indentUnit.toList
  modest : plain → Modest config

/-- A value exposes nothing looser than its rank, and a statement is as wanted. -/
def Sound (fine : String → Prop) : Emission → Prop
  | .value code rank => Operand rank code.toList
  | .statement code => fine code
  | .nothing => True

/-- Text that closes all it opens and binds only words of its own, if plain text is asked for. -/
def Closing (plain : Prop) (own : String → Prop) (code : String) : Prop :=
  plain → Contained own code

/-- A procedure that closes all it opens, and binds its parameters and then words of its own. -/
structure BindsParameters (own : String → Prop) (text : String) : Prop where
  closed : Closed text.toList
  bound : ∃ name words inner,
    IsProcedure name words text ∧ IsName name ∧ (∀ word ∈ words, IsName word) ∧
    boundWords text = some (words ++ inner) ∧ ∀ word ∈ inner, own word

/-- The names of a registry are fit for a Zig program, and no two are the same. -/
structure WellNamed (names : Registry) : Prop where
  reserved : ∀ word ∈ reservedWords, word ∈ names.reserved
  resolved : ∀ entry ∈ names.resolved, IsName entry.2
  issued : ∀ entry ∈ names.resolved, entry.2 ∈ names.issued
  apart : (names.resolved.map Prod.snd).Nodup

structure Named (session : Session) : Prop where
  names : WellNamed session.names
  realized : ∀ entry ∈ session.helpers.realized, IsName entry.2

/-- A definition that closes all it opens, and binds no more than it may if it is a procedure. -/
structure WellDefined (own : String → Prop) (entry : DefinitionKey × String) : Prop where
  closed : Closed entry.2.toList
  procedure : ∀ name, entry.1 = .procedure name → BindsParameters own entry.2

structure Orderly (plain : Prop) (own : String → Prop) (session : Session) :
    Prop extends Named session where
  definitions : plain → ∀ entry ∈ session.definitions.entries, WellDefined own entry

/-- The contract of statements that bind words of their own. -/
def contract (plain : Prop) (own : String → Prop) (config : Config) : Contract where
  value rank code := Spells code [.operand rank]
  lines _ := Closing plain own
  body _ := Closing plain own
  loop _ := True
  word word := IsName word
  helper template := plain → ∀ name : String, IsName name →
    Closed (realizeTemplate config.indentUnit template name).toList
  require text := plain → Closed text.toList
  define text := plain → BindsParameters own text
  session := Orderly plain own
  emission := Sound (Closing plain own)
  chain := Closing plain own

/-- Terms that give no less than the contract does, where a drawn word is one's own,
and ask for no more of imports and helpers. -/
structure Serves (plain : Prop) (own : String → Prop) (config : Config) (terms : Terms) : Prop where
  value : ∀ rank code, terms.value rank code → Spells code [.operand rank]
  lines : ∀ slot code, terms.lines slot code → Closing plain own code
  body : ∀ slot code, terms.body slot code → Closing plain own code
  word : ∀ word, terms.word word → IsName word
  fresh : ∀ word, terms.fresh word → IsName word ∧ own word
  helper : ∀ template, (contract plain own config).helper template → terms.helper template
  require : ∀ text, (contract plain own config).require text → terms.require text

/-- A script that does its part of the contract, and defines nothing. -/
def Fulfils {α : Type} (plain : Prop) (own : String → Prop) (config : Config) (goal : α → Prop)
    (script : Script α) : Prop :=
  ∀ terms, Serves plain own config terms → script.Meets terms goal

variable {α β : Type} {plain : Prop} {own : String → Prop} {config : Config} {goal : α → Prop}

theorem contract_serves (plain : Prop) (own : String → Prop) (config : Config) :
    Serves plain own config ((contract plain own config).toTerms.drawing own) where
  value _ _ h := h
  lines _ _ h := h
  body _ _ h := h
  word _ h := h
  fresh _ h := h
  helper _ h := h
  require _ h := h

/-- Every word is one's own. -/
theorem Fulfils.meets {script : Script α} (h : Fulfils plain (fun _ => True) config goal script) :
    script.Meets (contract plain (fun _ => True) config).toTerms goal := by
  rw [← Terms.drawing_any (contract plain _ config).toTerms]
  exact h _ (contract_serves plain _ config)

theorem Fulfils.bind {middle : α → Prop} {goal : β → Prop} {script : Script α} {next : α → Script β}
    (h : Fulfils plain own config middle script)
    (hnext : ∀ answer, middle answer → Fulfils plain own config goal (next answer)) :
    Fulfils plain own config goal (script >>= next) :=
  fun terms hterms => (h terms hterms).bind fun answer hanswer => hnext answer hanswer terms hterms

theorem Fulfils.map {middle : α → Prop} {goal : β → Prop} {script : Script α} {f : α → β}
    (h : Fulfils plain own config middle script) (hf : ∀ answer, middle answer → goal (f answer)) :
    Fulfils plain own config goal (f <$> script) :=
  fun terms hterms => (h terms hterms).map hf

theorem Fulfils.pure {answer : α} (h : goal answer) :
    Fulfils plain own config goal (Pure.pure answer) := fun _ _ => h

theorem Fulfils.done {answer : α} (h : goal answer) :
    Fulfils plain own config goal (.done answer) := fun _ _ => h

/-! ### Injected text -/

theorem Uninjected.before_eq (h : Uninjected config) (style : QuoteStyle) (id : String) :
    config.before style id = "" := by
  simp [Config.before, Config.injected, h.before]

theorem Uninjected.after_eq (h : Uninjected config) (style : QuoteStyle) (id : String) :
    config.after style id = "" := by
  simp [Config.after, Config.injected, h.after]

theorem Uninjected.trap_eq (h : Uninjected config) (style : QuoteStyle) (id : String) :
    config.trap style id = "" := by
  simp [Config.trap, Config.injected, h.trap]

theorem prefixLines_empty (mark : String) : Text.prefixLines mark "" = "" := rfl

theorem Uninjected.trapLoop_eq (h : Uninjected config) (style : QuoteStyle) (body id : String) :
    config.trapLoop style body id = body := by
  simp [Config.trapLoop, h.before_eq, h.after_eq, h.trap_eq, prefixLines_empty]

theorem Uninjected.modest (h : Uninjected config) : Modest config where
  before id := h.before_eq quotes id ▸ .empty
  after id := h.after_eq quotes id ▸ .empty
  trap id := h.trap_eq quotes id ▸ .empty

namespace Fair

theorem contained_before (h : Fair plain config) (hp : plain) (id : String) :
    Contained own (config.before quotes id) :=
  ((h.modest hp).before id).mono fun _ => False.elim

theorem contained_after (h : Fair plain config) (hp : plain) (id : String) :
    Contained own (config.after quotes id) :=
  ((h.modest hp).after id).mono fun _ => False.elim

theorem contained_trap (h : Fair plain config) (hp : plain) (id : String) :
    Contained own (config.trap quotes id) :=
  ((h.modest hp).trap id).mono fun _ => False.elim

end Fair

theorem Fair.spells_indent (h : Fair plain config) : Spells config.indentUnit [.blank] :=
  spells_iff.mpr h.indent

/-! ### Requests -/

theorem atom_zero : Atom "0".toList := operand_of_spells _ (by decide)

theorem atom_one : Atom "1".toList := operand_of_spells _ (by decide)

theorem atom_null : Atom "null".toList := operand_of_spells _ (by decide)

theorem atom_true : Atom "true".toList := operand_of_spells _ (by decide)

theorem atom_false : Atom "false".toList := operand_of_spells _ (by decide)

theorem atom_emptyText : Atom emptyText.toList :=
  (operand_of_spells "\"\"" (by decide) : Atom "\"\"".toList)

theorem fulfils_askValue (slot : String) (rank : Rank) :
    Fulfils plain own config (fun code => ∀ text ∈ code,
      Spells text [.operand rank]) (.askValue slot rank) :=
  fun _ hterms _ hcode text htext => hterms.value rank text (hcode text htext)

theorem fulfils_valueOr (slot : String) (rank : Rank)
    {fallback : String} (h : Atom fallback.toList) :
    Fulfils plain own config (fun code =>
      Spells code [.operand rank]) (.valueOr slot rank fallback) := by
  refine (fulfils_askValue slot rank).bind fun code hcode => Fulfils.pure ?_
  cases code with
  | none => exact h.spells rank
  | some text => exact hcode text rfl

theorem fulfils_valuesOr (rank : Rank) {fallback : String} (h : Atom fallback.toList)
    (slots : List String) :
    Fulfils plain own config (fun codes => ∀ code ∈ codes, Spells code [.operand rank])
      (.valuesOr rank fallback slots) := by
  induction slots with
  | nil => exact Fulfils.done (List.forall_mem_nil _)
  | cons slot rest ih =>
    refine (fulfils_valueOr slot rank h).bind fun code hcode => ih.bind fun codes hcodes => ?_
    exact Fulfils.pure (List.forall_mem_cons.mpr ⟨hcode, hcodes⟩)

theorem fulfils_askStatements (slot : String) :
    Fulfils plain own config (Closing plain own) (.askStatements slot) :=
  fun _ hterms _ hcode => hterms.lines slot _ hcode

theorem fulfils_askLoopBody (slot : String) :
    Fulfils plain own config (Closing plain own) (.askLoopBody slot) :=
  fun _ hterms _ hcode => hterms.body slot _ hcode

theorem fulfils_askLoop : Fulfils plain own config (fun _ => True) .askLoop :=
  fun _ _ _ _ => trivial

theorem fulfils_freshName (name : String) :
    Fulfils plain own config (fun word => IsName word ∧ own word) (.freshName name) :=
  fun _ hterms _ hword => hterms.fresh _ hword

theorem fulfils_variableName (name : String) :
    Fulfils plain own config (fun word => Spells word [.operand .atomic]) (.variableName name) :=
  fun _ hterms _ hword => (hterms.word _ hword).spells

theorem fulfils_procedureName (name : String) :
    Fulfils plain own config (fun word => Spells word [.operand .atomic]) (.procedureName name) :=
  fun _ hterms _ hword => (hterms.word _ hword).spells

theorem fulfils_askHelper (h : Fair plain config)
    (key template : String) [ht : ClosedTemplate template] :
    Fulfils plain own config (fun word =>
      Spells word [.operand .atomic]) (.askHelper key template) :=
  fun _ hterms => ⟨hterms.helper template fun _ name hname => ht.closed _ name h.indent hname.atom,
    fun _ hword => (hterms.word _ hword).spells⟩

theorem fulfils_requireText (tag : String) {text : String} (h : Closed text.toList) :
    Fulfils plain own config (fun _ => True) (.requireText tag text) :=
  fun _ hterms => ⟨hterms.require text fun _ => h, trivial⟩

theorem fulfils_requireStd : Fulfils plain own config (fun _ => True) requireStd :=
  fulfils_requireText _ (closed_of_spells _ (by decide))

theorem fulfils_requireAllocator : Fulfils plain own config (fun _ => True) requireAllocator :=
  fulfils_requireStd.bind fun _ _ => fulfils_requireText _ (closed_of_spells _ (by decide))

theorem fulfils_unknownOption (node : Node) (field : String) :
    Fulfils plain own config goal (unknownOption node field) := fun _ _ => trivial

theorem fulfils_option (node : Node) (field : String) :
    Fulfils plain own config (fun _ => True) (option node field) := by
  unfold option
  split
  · exact Fulfils.done trivial
  · exact fulfils_unknownOption node field

theorem fulfils_choose (node : Node) (field : String) (choice : Option α) :
    Fulfils plain own config (fun answer => choice = some answer) (choose node field choice) := by
  cases choice with
  | some answer => exact Fulfils.done rfl
  | none => exact fulfils_unknownOption node field

theorem fulfils_variableOf (node : Node) :
    Fulfils plain own config (fun word => Spells word [.operand .atomic]) (variableOf node) :=
  (fulfils_option node "VAR").bind fun field _ => fulfils_variableName field

/-! ### Index code -/

theorem operand_toString_int (n : Int) : Operand .unaryPrefix (toString n).toList := by
  have hdigits : Atom (toString n.natAbs).toList := atom_of_numeral (Chars.numeral_toString _)
  rw [Binary64.toString_toList_int]
  split
  · have hpieces : Composed [.chars ['-'], .operand .atomic]
        (['-'] ++ (toString n.natAbs).toList) :=
      ⟨['-'], _, rfl, rfl, composed_singleton.mpr hdigits⟩
    exact operand_of_composed (by decide) hpieces
  · exact hdigits.operand _

theorem operand_shiftCode (text : String) {delta : Int}
    (hdelta : delta ≠ 0) [Spells text [.operand .additive]] :
    Operand .additive (IndexOperand.shiftCode text delta).toList := by
  have hplus : Spells (toString delta) [.operand .unaryPrefix] :=
    spells_iff.mpr (operand_toString_int delta)
  have hminus : Spells (toString delta.natAbs) [.operand .atomic] :=
    spells_iff.mpr (atom_of_numeral (Chars.numeral_toString _))
  unfold IndexOperand.shiftCode
  split
  · exact operand_of_spells _ (by decide)
  · split
    · exact operand_of_spells _ (by decide)
    · omega

/-- An index that is not negated, at a place that admits a sign. -/
theorem fulfils_index (slot : String) (delta : Int) {place : Rank}
    (hplace : Rank.unaryPrefix.level ≤ place.level) :
    Fulfils plain own config (fun code => Spells code [.operand place])
      (.index config slot delta false place) := by
  unfold Script.index
  generalize (if config.oneBased then delta - 1 else delta) = delta
  have hfirst : Atom (if config.oneBased then "1" else "0").toList := by
    split
    · exact atom_one
    · exact atom_zero
  refine (fulfils_valueOr slot _ hfirst).bind fun code hcode => Fulfils.pure (spells_iff.mpr ?_)
  unfold IndexOperand.ofCode
  split
  · exact Operand.mono (operand_toString_int _) hplace
  · by_cases hdelta : delta = 0
    · subst hdelta
      exact spells_iff.mp hcode
    · have hrank : IndexOperand.operandRank delta false place = .additive := by
        simp [IndexOperand.operandRank, hdelta]
      rw [hrank] at hcode
      have hmoved := operand_shiftCode code hdelta
      have hspells : Spells (IndexOperand.shiftCode code delta) [.operand .additive] :=
        spells_iff.mpr hmoved
      simp only [IndexOperand.adjust, IndexOperand.shiftRank?, Bool.false_eq_true, if_false, ne_eq,
        hdelta, not_false_eq_true, if_true]
      split
      · have hwrapped : Atom (s!"({IndexOperand.shiftCode code delta})").toList :=
          operand_of_spells _ (by decide)
        exact hwrapped.operand place
      · rename_i hparens
        exact Operand.mono hmoved (Rank.level_le_of_needsParens (by simpa using hparens))

end BlockSynth.Zig
