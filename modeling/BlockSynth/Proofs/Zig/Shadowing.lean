import BlockSynth.Proofs.Drawing
import BlockSynth.Proofs.Zig.Containment
import BlockSynth.Proofs.Zig.FileScope
import BlockSynth.Proofs.Zig.Locals

/-! # What local names hide

What the main function binds has been drawn for it, and so has what a procedure binds besides its
parameters. The drawn words come from the registry that the names at file scope come from, so they
hide nothing. A parameter of a procedure is a variable like any other and hides the one that the
workspace declares under its name. The local names of helpers are fixed, and nothing keeps a
variable or a procedure from being given one of them.
-/
namespace BlockSynth

namespace Zig

open Ledger

variable {unit : String} {workspace : Workspace} {ledger : Ledger} {word : String}

/-! ### Temporaries -/

/-- A word that has been issued and that no definition can declare. -/
structure Loose (ledger : Ledger) (word : String) : Prop where
  isName : IsName word
  issued : word ∈ ledger.names.issued
  unresolved : word ∉ ledger.names.resolved.map Prod.snd
  undefined : .helper word ∉ ledger.definitions.keys

theorem Loose.insert (h : Loose ledger word) {key : DefinitionKey}
    (hkey : key ≠ .helper word) (text : String) :
    Loose { ledger with definitions := ledger.definitions.insert key text } word where
  isName := h.isName
  issued := h.issued
  unresolved := h.unresolved
  undefined hmem := by
    rcases Definitions.mem_keys_insert.mp hmem with hold | hnew
    · exact h.undefined hold
    · exact hkey hnew.symm

/-- Once a word is a temporary, no call makes anything else of it. -/
theorem Loose.perform (h : Loose ledger word) (call : Call) :
    Loose (ledger.perform unit call) word := by
  have hnew : ∀ name, word ≠ ledger.names.distinct name := by
    rintro name rfl
    exact (ledger.names.distinct_not_mem name).1 h.issued
  have hfresh : ∀ name, Loose (ledger.fresh name).2 word := fun name =>
    ⟨h.isName, List.mem_cons_of_mem _ h.issued, h.unresolved, h.undefined⟩
  cases call with
  | provide key template =>
    show Loose (ledger.provide unit key template).2 word
    cases hlookup : ledger.helpers.lookup key template with
    | some name =>
      rw [provide_of_lookup hlookup]
      exact h
    | none =>
      rw [provide_of_not_lookup hlookup]
      have hhelper : DefinitionKey.helper (ledger.names.distinct key) ≠ .helper word :=
        fun heq => hnew key (DefinitionKey.helper.inj heq).symm
      have hinsert :=
        (hfresh key).insert hhelper (realizeTemplate unit template (ledger.names.distinct key))
      exact ⟨hinsert.isName, hinsert.issued, hinsert.unresolved, hinsert.undefined⟩
  | resolve space name =>
    have hissued := issued_subset_resolve ledger.names space name h.issued
    refine ⟨h.isName, hissued, ?_, h.undefined⟩
    show word ∉ (ledger.names.resolve space name).2.resolved.map Prod.snd
    cases hlookup : ledger.names.lookup space name with
    | some found =>
      rw [Registry.resolve_of_lookup hlookup]
      exact h.unresolved
    | none =>
      rw [Registry.resolve_of_not_lookup hlookup, List.map_cons, List.mem_cons, not_or]
      exact ⟨hnew name, h.unresolved⟩
  | fresh name => exact hfresh name
  | require tag text =>
    show Loose (ledger.require tag text) word
    rcases ledger.require_cases tag text with heq | heq
    · rw [heq]
      exact h
    · rw [heq]
      exact h.insert (by simp) text
  | define name text => exact h.insert (by simp) text

theorem Loose.after (h : Loose ledger word) (calls : List Call) :
    Loose (ledger.after unit calls) word := by
  induction calls generalizing ledger with
  | nil => exact h
  | cons call rest ih => exact ih (h.perform call)

/-- The names of a ledger and of its helpers have all been issued. -/
structure Issuing (ledger : Ledger) : Prop where
  names : WellNamed ledger.names
  helpers : ∀ name, .helper name ∈ ledger.definitions.keys → name ∈ ledger.names.issued

namespace Issuing

theorem insert (h : Issuing ledger) {key : DefinitionKey}
    (hkey : ∀ name, key = .helper name → name ∈ ledger.names.issued) (text : String) :
    Issuing { ledger with definitions := ledger.definitions.insert key text } where
  names := h.names
  helpers name hmem := by
    rcases Definitions.mem_keys_insert.mp hmem with hold | hnew
    · exact h.helpers name hold
    · exact hkey name hnew.symm

theorem fresh (h : Issuing ledger) (name : String) : Issuing (ledger.fresh name).2 where
  names := (h.names.fresh name).2
  helpers helper hmem := List.mem_cons_of_mem _ (h.helpers helper hmem)

theorem perform (h : Issuing ledger) (call : Call) : Issuing (ledger.perform unit call) := by
  cases call with
  | provide key template =>
    show Issuing (ledger.provide unit key template).2
    cases hlookup : ledger.helpers.lookup key template with
    | some name =>
      rw [provide_of_lookup hlookup]
      exact h
    | none =>
      rw [provide_of_not_lookup hlookup]
      have hissued : ∀ name, DefinitionKey.helper (ledger.names.distinct key) = .helper name →
          name ∈ (ledger.fresh key).2.names.issued := by
        rintro name heq
        obtain rfl := DefinitionKey.helper.inj heq
        exact List.mem_cons_self
      have hinsert :=
        (h.fresh key).insert hissued (realizeTemplate unit template (ledger.names.distinct key))
      exact ⟨hinsert.names, hinsert.helpers⟩
  | resolve space name =>
    exact ⟨(h.names.resolve space name).2, fun helper hmem =>
      issued_subset_resolve ledger.names space name (h.helpers helper hmem)⟩
  | fresh name => exact h.fresh name
  | require tag text =>
    show Issuing (ledger.require tag text)
    rcases ledger.require_cases tag text with heq | heq
    · rw [heq]
      exact h
    · rw [heq]
      exact h.insert (by simp) text
  | define name text => exact h.insert (by simp) text

/-- A word that is drawn is a temporary. -/
theorem loose_fresh (h : Issuing ledger) (name : String) :
    Loose (ledger.fresh name).2 (ledger.fresh name).1 where
  isName := (h.names.fresh name).1
  issued := List.mem_cons_self
  unresolved hmem := by
    obtain ⟨entry, hentry, heq⟩ := List.mem_map.mp hmem
    have hissued := h.names.issued entry hentry
    rw [heq] at hissued
    exact (ledger.names.distinct_not_mem name).1 hissued
  undefined hmem := (ledger.names.distinct_not_mem name).1 (h.helpers _ hmem)

/-- All that calls draw is temporary when they are through. -/
theorem loose_temporaries (h : Issuing ledger) (calls : List Call) :
    ∀ word ∈ temporaries unit ledger calls, Loose (ledger.after unit calls) word := by
  induction calls generalizing ledger with
  | nil => exact List.forall_mem_nil _
  | cons call rest ih =>
    intro word hword
    rcases List.mem_append.mp hword with hdrawn | hlater
    · cases call with
      | fresh name =>
        obtain rfl := List.mem_singleton.mp hdrawn
        exact (h.loose_fresh name).after rest
      | _ => simp [drawn] at hdrawn
    · exact ih (h.perform call) word hlater

end Issuing

theorem Apart.issuing (h : Apart workspace ledger) : Issuing ledger where
  names := h.names
  helpers name hmem := by
    obtain ⟨⟨key, text⟩, hentry, rfl⟩ := List.mem_map.mp hmem
    exact (h.owned _ hentry name (List.mem_singleton_self _)).2.2.1

/-! ### Origins -/

/-- Where the text of a helper and of a procedure comes from. -/
def Origin (unit : String) (names : Registry) : DefinitionKey × String → Prop
  | (.helper name, text) => ∃ entry ∈ unallocated ++ allocated,
      NamedFor entry.1.toList name.toList ∧ text = realizeTemplate unit entry.2 name
  | (.procedure name, text) => ∃ words, IsProcedure name words text ∧
      ∀ word ∈ words, ∃ logical, ((.variable, logical), word) ∈ names.resolved
  | _ => True

theorem Origin.mono {names later : Registry} (hlater : names.resolved ⊆ later.resolved)
    {entry : DefinitionKey × String} (h : Origin unit names entry) : Origin unit later entry := by
  obtain ⟨key, text⟩ := entry
  cases key with
  | procedure name =>
    obtain ⟨words, htext, hwords⟩ := h
    refine ⟨words, htext, fun word hword => ?_⟩
    obtain ⟨logical, hmem⟩ := hwords word hword
    exact ⟨logical, hlater hmem⟩
  | helper name => exact h
  | importing tag => trivial
  | variableBlock => trivial

/-- Everything defined has its origin. -/
def Derived (unit : String) (ledger : Ledger) : Prop :=
  ∀ entry ∈ ledger.definitions.entries, Origin unit ledger.names entry

theorem Derived.insert (h : Derived unit ledger) {key : DefinitionKey} {text : String}
    (hentry : Origin unit ledger.names (key, text)) :
    Derived unit { ledger with definitions := ledger.definitions.insert key text } := by
  intro entry hmem
  rcases Definitions.mem_of_mem_insert hmem with hold | rfl
  · exact h entry hold
  · exact hentry

theorem derived_kept (unit : String) : supply.Keep unit (Derived unit) where
  resolve ledger space name h entry hentry :=
    (h entry hentry).mono (ledger.grows_resolve space name).resolved
  fresh _ _ h := h
  provide ledger notes key template _ hcovered h := by
    cases hlookup : ledger.helpers.lookup key template with
    | some name =>
      rw [provide_of_lookup hlookup]
      exact h
    | none =>
      rw [provide_of_not_lookup hlookup]
      exact h.insert ⟨(key, template), hcovered.stocked, namedFor_distinct ledger.names key, rfl⟩
  require ledger tag text _ h := by
    rcases ledger.require_cases tag text with heq | heq
    · rw [heq]
      exact h
    · rw [heq]
      exact h.insert trivial
  define ledger notes name text hhold hdefine h := by
    obtain ⟨words, hnoted, htext⟩ := hdefine.parameters
    exact h.insert ⟨words, htext, fun word hword => hhold.words _ (hnoted word hword)⟩

theorem derived_opened (config : Config) (workspace : Workspace) :
    Derived unit ((setting config).openProgram workspace (setting config).session).toLedger := by
  show Derived unit (opening workspace (setting config).session.toLedger)
  unfold opening
  dsimp only
  split
  · exact List.forall_mem_nil _
  · exact List.forall_mem_singleton.mpr trivial

/-! ### Owners of file scope -/

theorem Apart.owner (h : Apart workspace ledger) (hword : word ∈ fileScope ledger.definitions) :
    word = "main" ∨ ∃ entry ∈ ledger.definitions.entries,
      word ∈ declared entry ∧ Owns ledger.names entry.1 word := by
  rcases List.mem_append.mp hword with hdeclared | hmain
  · obtain ⟨entry, hentry, hmem⟩ := List.mem_flatMap.mp hdeclared
    exact .inr ⟨entry, hentry, hmem, h.owned entry hentry word hmem⟩
  · exact .inl (List.mem_singleton.mp hmain)

theorem Spelling.mem_iff {names : Registry}
    {list words : List String} (h : Spelling names list words) :
    word ∈ words ↔ ∃ name ∈ list, names.lookup .variable name = some word := by
  induction h with
  | nil => simp
  | cons hlookup _ ih => simp [ih, hlookup, eq_comm]

/-- The identifier of a variable that the workspace declares. -/
def IsVariable (workspace : Workspace) (names : Registry) (word : String) : Prop :=
  ∃ name ∈ workspace.variableNames, names.lookup .variable name = some word

theorem Apart.declared_variableBlock_iff (h : Apart workspace ledger) {text : String}
    (htext : (.variableBlock, text) ∈ ledger.definitions.entries) :
    word ∈ declared (.variableBlock, text) ↔ IsVariable workspace ledger.names word := by
  obtain ⟨words, hspelled, hdeclared⟩ := h.exists_declared htext
  rw [hdeclared]
  exact hspelled.mem_iff

theorem Apart.mem_fileScope_of_isVariable (h : Apart workspace ledger)
    (hword : IsVariable workspace ledger.names word) : word ∈ fileScope ledger.definitions := by
  have hne : workspace.variableNames ≠ [] := by
    obtain ⟨name, hname, -⟩ := hword
    exact List.ne_nil_of_mem hname
  obtain ⟨⟨key, text⟩, hentry, rfl⟩ := List.mem_map.mp (h.block hne)
  exact List.mem_append_left _
    (List.mem_flatMap.mpr ⟨_, hentry, (h.declared_variableBlock_iff hentry).mpr hword⟩)

/-- What is owned by one key and declared at file scope is declared under that key. -/
theorem Apart.declared_of_owns (h : Apart workspace ledger) {key : DefinitionKey}
    (howns : Owns ledger.names key word) (hword : word ∈ fileScope ledger.definitions) :
    ∃ text, (key, text) ∈ ledger.definitions.entries ∧ word ∈ declared (key, text) := by
  rcases h.owner hword with rfl | ⟨⟨key', text⟩, hentry, hdeclared, howns'⟩
  · exact absurd rfl (howns.ne_main h.names)
  · obtain rfl := howns.key_eq howns' h.names
    exact ⟨text, hentry, hdeclared⟩

theorem Loose.not_mem_fileScope (h : Loose ledger word) (hapart : Apart workspace ledger) :
    word ∉ fileScope ledger.definitions := by
  have hresolved : ∀ {space : Namespace} {name : String},
      ((space, name), word) ∉ ledger.names.resolved :=
    fun hmem => h.unresolved (List.mem_map_of_mem hmem)
  intro hword
  rcases hapart.owner hword with rfl | ⟨⟨key, text⟩, hentry, -, howns⟩
  · exact h.isName.not_mem (by decide)
  · have himport := (howns.isName_iff hapart.names).mp h.isName
    cases key with
    | importing tag => simp [DefinitionKey.isImport] at himport
    | variableBlock =>
      obtain ⟨name, hmem⟩ := howns
      exact hresolved hmem
    | helper name =>
      obtain rfl := howns.1
      exact h.undefined (Definitions.mem_keys hentry)
    | procedure name =>
      obtain ⟨rfl, logical, hmem⟩ := howns
      exact hresolved hmem

/-- A parameter is declared at file scope where a variable of the workspace is. -/
theorem Apart.mem_fileScope_iff_of_resolved (h : Apart workspace ledger) {logical : String}
    (hmem : ((.variable, logical), word) ∈ ledger.names.resolved) :
    word ∈ fileScope ledger.definitions ↔ IsVariable workspace ledger.names word := by
  have howns : Owns ledger.names .variableBlock word := ⟨logical, hmem⟩
  constructor
  · intro hword
    obtain ⟨text, hentry, hdeclared⟩ := h.declared_of_owns howns hword
    exact (h.declared_variableBlock_iff hentry).mp hdeclared
  · exact h.mem_fileScope_of_isVariable

/-- How the keys of helpers begin. -/
def families : List (List Char) :=
  [['m', 'a', 't', 'h', '_'], ['t', 'e', 'x', 't', '_'], ['l', 'i', 's', 't', 's', '_'],
    ['c', 'o', 'l', 'o', 'u', 'r', '_']]

/-- No word of the vocabulary is a key, or a key with a numeral. -/
theorem not_namedFor_of_mem_vocabulary {entry : String × String}
    (hentry : entry ∈ unallocated ++ allocated) (hword : word ∈ vocabulary) :
    ¬NamedFor entry.1.toList word.toList := by
  have hkeys : ∀ entry ∈ unallocated ++ allocated, ∃ start ∈ families,
      start <+: Chars.sanitize entry.1.toList := by
    decide +kernel
  have hwords : ∀ word ∈ vocabulary, ∀ start ∈ families, ¬start <+: word.toList := by
    decide +kernel
  rintro ⟨numeral, -, heq⟩
  obtain ⟨start, hstart, hkey⟩ := hkeys entry hentry
  refine hwords word hword start hstart ?_
  rw [heq]
  exact hkey.trans (List.prefix_append _ _)

theorem Apart.owner_of_mem_vocabulary (h : Apart workspace ledger) (hderived : Derived unit ledger)
    (hvocabulary : word ∈ vocabulary) (hword : word ∈ fileScope ledger.definitions) :
    IsVariable workspace ledger.names word ∨ .procedure word ∈ ledger.definitions.keys := by
  have hspared : word ≠ "main" ∧ word ≠ "std" ∧ word ≠ "allocator" := by
    have hall : ∀ word ∈ vocabulary, word ≠ "main" ∧ word ≠ "std" ∧ word ≠ "allocator" := by
      decide +kernel
    exact hall word hvocabulary
  rcases h.owner hword with hmain | ⟨⟨key, text⟩, hentry, hdeclared, howns⟩
  · exact absurd hmain hspared.1
  · cases key with
    | importing tag =>
      obtain ⟨rfl, rfl | rfl⟩ := howns
      · exact absurd rfl hspared.2.1
      · exact absurd rfl hspared.2.2
    | variableBlock => exact .inl ((h.declared_variableBlock_iff hentry).mp hdeclared)
    | helper name =>
      obtain rfl := howns.1
      obtain ⟨entry, hstock, hnamed, -⟩ := hderived _ hentry
      exact absurd hnamed (not_namedFor_of_mem_vocabulary hstock hvocabulary)
    | procedure name =>
      obtain rfl := howns.1
      exact .inr (Definitions.mem_keys hentry)

/-! ### Shadowing -/

/-- The text of the main function, from the codes of the roots. -/
def mainFunction (config : Config) (codes : List String) : String :=
  braces "pub fn main() !void" (Text.prefixLines config.indentUnit (Text.join "\n" codes))

/-- A program ends with its main function. -/
theorem closeProgram_eq (config : Config) (codes : List String) (session : Session) :
    ∃ front, ((setting config).closeProgram (Text.join "\n" codes) session).1 =
      front ++ mainFunction config codes :=
  ⟨_, rfl⟩

theorem contained_mainFunction {config : Config} (hindent : IsIndent config.indentUnit.toList)
    {own : String → Prop} {codes : List String} (h : ∀ code ∈ codes, Contained own code) :
    Contained own (mainFunction config codes) := by
  have hbreak : Contained own "\n" := contained_of_spells "\n" (by decide)
  have hbody : Contained own (Text.join "\n" codes) :=
    Text.join_of_forall .empty (fun _ _ hcode hmore => hcode.append hmore) hbreak h
  exact contained_braces "pub fn main() !void" (hbody.indent hindent) (by decide)

/-- What the local names of a program hide, some words having been drawn for
temporaries. What is said of the texts of the main function and of procedures is said
where the text that is injected into them binds nothing. -/
structure Sheltered (config : Config) (workspace : Workspace) (ledger : Ledger) (main : String)
    (passing : List String) : Prop where
  temporaries : ∀ word ∈ passing, word ∉ fileScope ledger.definitions
  main : Modest config → ∃ bound, boundWords main = some bound ∧ bound ⊆ passing
  procedures : ∀ name text, (.procedure name, text) ∈ ledger.definitions.entries →
    (∀ word ∈ parameters text,
      word ∈ fileScope ledger.definitions ↔ IsVariable workspace ledger.names word) ∧
      (Modest config → ∃ inner, boundWords text = some (parameters text ++ inner) ∧ inner ⊆ passing)
  helpers : ∀ name text, (.helper name, text) ∈ ledger.definitions.entries →
    ∃ bound, boundWords text = some bound ∧ bound ⊆ vocabulary ∧
      ∀ word ∈ bound, word ∈ fileScope ledger.definitions →
        IsVariable workspace ledger.names word ∨ .procedure word ∈ ledger.definitions.keys

theorem Apart.isName_of_entry (h : Apart workspace ledger)
    {entry : DefinitionKey × String} (hentry : entry ∈ ledger.definitions.entries)
    (hword : word ∈ declared entry) (hkey : entry.1.isImport = false) :
    IsName word :=
  ((h.owned entry hentry word hword).isName_iff h.names).mpr hkey

/-- A helper binds words of the vocabulary. -/
theorem Derived.bounded (h : Derived unit ledger)
    (hunit : IsIndent unit.toList) {name text : String}
    (hentry : (.helper name, text) ∈ ledger.definitions.entries) (hname : IsName name) :
    ∃ bound, boundWords text = some bound ∧ bound ⊆ vocabulary := by
  obtain ⟨entry, hstock, -, rfl⟩ := h _ hentry
  rcases List.mem_append.mp hstock with hmem | hmem
  · exact bounded_unallocated entry hmem unit name hunit hname
  · exact bounded_allocated entry hmem unit name hunit hname

/-- The parameters of a procedure have been resolved as variables. -/
theorem Derived.parameters (h : Derived unit ledger)
    (hnames : WellNamed ledger.names) {name text : String}
    (hentry : (.procedure name, text) ∈ ledger.definitions.entries) (hname : IsName name) :
    ∀ word ∈ parameters text, ∃ logical, ((.variable, logical), word) ∈ ledger.names.resolved := by
  obtain ⟨words, htext, hwords⟩ := h _ hentry
  rw [parameters_of_isProcedure htext hname fun word hword =>
    hnames.resolved _ (hwords word hword).choose_spec]
  exact hwords

theorem BindsParameters.exists_boundWords {own : String → Prop}
    {text : String} (h : BindsParameters own text) :
    ∃ inner, boundWords text = some (parameters text ++ inner) ∧ ∀ word ∈ inner, own word := by
  obtain ⟨name, words, inner, htext, hname, hwords, hinner⟩ := h.bound
  rw [parameters_of_isProcedure htext hname hwords]
  exact ⟨inner, hinner⟩

theorem supplied {config : Config} (hindent : IsIndent config.indentUnit.toList) :
    Contract.Supplied (fun kept =>
      contract (Modest config) (· ∈ kept) config) (setting config) where
  observed kept := contract_observed ⟨hindent, id⟩ _
  emitter kept _ _ hfind node := by
    rw [catalog_setting] at hfind
    exact (truthful_catalog ⟨hindent, id⟩).find? hfind node

/-- What the main function binds hides nothing, having been drawn, and neither does
what a procedure binds besides its parameters. A parameter hides the variable that the
workspace declares under its name, and nothing else. The local names of helpers are
few, and hide variables and procedures only. -/
theorem locals_hide_variables_and_procedures_only {config : Config}
    (hindent : IsIndent config.indentUnit.toList) {workspace : Workspace}
    {program : String} (hgenerate : (setting config).generate workspace = .ok program) :
    let opened := (setting config).openProgram workspace (setting config).session
    ∃ codes session calls front,
      (setting config).renderRoots workspace.roots opened = .ok codes session ∧
      ((setting config).closeProgram (Text.join "\n" codes) session).1 =
        front ++ mainFunction config codes ∧
      program = Text.tidy (front ++ mainFunction config codes) ∧
      session.toLedger = opened.toLedger.after config.indentUnit calls ∧
      Sheltered config workspace session.toLedger (mainFunction config codes)
        (temporaries config.indentUnit opened.toLedger calls) := by
  intro opened
  have hopened : Apart workspace opened.toLedger := apart_opened config workspace
  have hapart :=
    (apart_kept config.indentUnit workspace).renderRoots (supply_heeded config) workspace.roots
    opened hopened
  have hderived :=
    (derived_kept config.indentUnit).renderRoots (supply_heeded config) workspace.roots
    opened (derived_opened config workspace)
  obtain ⟨codes, session, hrun, hprogram⟩ := exists_roots_of_generate hgenerate
  rw [Synth.leaves_of_ok hrun] at hapart hderived
  have hapart : Apart workspace session.toLedger := hapart.inv
  have hderived : Derived config.indentUnit session.toLedger := hderived.inv
  obtain ⟨calls, hcalls, hanswer⟩ :=
    (supplied hindent).renderRoots workspace.roots (fun _ => True) opened codes session hrun
  obtain ⟨horderly, hcodes⟩ := hanswer _ (List.Subset.refl _) trivial
    ((orderly_session _ _ config).openProgram workspace)
  have hloose : ∀ word ∈ temporaries config.indentUnit opened.toLedger calls,
      Loose session.toLedger word := by
    rw [hcalls]
    exact hopened.issuing.loose_temporaries calls
  obtain ⟨front, hfront⟩ := closeProgram_eq config codes session
  have hname : ∀ {key : DefinitionKey} {name text : String},
      (key, text) ∈ session.definitions.entries →
      name ∈ declared (key, text) → key.isImport = false → IsName name :=
    fun hentry hword hkey => hapart.isName_of_entry hentry hword hkey
  refine ⟨codes, session, calls, front, hrun, hfront, hfront ▸ hprogram, hcalls, ?_⟩
  constructor
  case temporaries => exact fun word hword => (hloose word hword).not_mem_fileScope hapart
  case main =>
    intro hmodest
    have hmain := contained_mainFunction hindent fun code hcode => hcodes code hcode hmodest
    exact hmain.discreet.exists_boundWords
  case procedures =>
    intro name text hentry
    refine ⟨fun word hword => ?_, fun hmodest => ?_⟩
    · obtain ⟨logical, hmem⟩ := hderived.parameters hapart.names hentry
        (hname hentry (List.mem_singleton_self name) rfl) word hword
      exact hapart.mem_fileScope_iff_of_resolved hmem
    · exact ((horderly.definitions hmodest _ hentry).procedure name rfl).exists_boundWords
  case helpers =>
    intro name text hentry
    obtain ⟨bound, hbound, hsubset⟩ := hderived.bounded hindent hentry
      (hname hentry (List.mem_singleton_self name) rfl)
    exact ⟨bound, hbound, hsubset, fun word hword =>
      hapart.owner_of_mem_vocabulary hderived (hsubset hword)⟩

/-! ### A variable and a parameter in the way -/

def summed : Node :=
  { kind := "math_on_list", fields := [("OP", .text "SUM")] }

def emptyProcedure : Node :=
  { kind := "procedures_defnoreturn", fields := [("NAME", .text "f")],
    mutation := { params := ["x"] } }

def eachOfX : Node :=
  { kind := "controls_forEach", fields := [("VAR", .text "x")] }

/-- The sum takes its items by the name of a variable, and the procedure has a
variable for a parameter. -/
def crowded : Workspace :=
  ⟨["values", "x"], [summed, emptyProcedure]⟩

theorem emission_summed (session : Session) :
    let provided :=
      (session.require "std" "const std = @import(\"std\");").provide "    " "math_sum" sumTemplate
    (summed.offer (setting {})).emission session =
      .ok (.value s!"{provided.1}({noItems})" .unaryPostfix)
        { session with toLedger := provided.2 } := by
  have hfind : catalog.find? "math_on_list" = some ⟨aggregateList, false⟩ :=
    (find?_catalog (by decide)).trans rfl
  rw [@emission_of_kind {} summed "math_on_list" _ rfl hfind]
  rfl

theorem emission_emptyProcedure (session : Session) :
    let named := session.resolve .procedure "f"
    let known := named.2.resolve .variable "x"
    ∃ text, IsProcedure named.1 [known.1] text ∧
      (emptyProcedure.offer (setting {})).emission session =
        .ok .nothing { session with toLedger := known.2.define named.1 text } := by
  intro named known
  have hfind : catalog.find? "procedures_defreturn" = some ⟨defineProcedure, true⟩ :=
    (find?_catalog (by decide)).trans rfl
  have halias := @find?_catalog_alias "procedures_defnoreturn" "procedures_defreturn" _
    (by decide) (by decide) hfind
  rw [@emission_of_kind {} emptyProcedure "procedures_defnoreturn" _ rfl halias]
  exact ⟨_, ⟨emptyProcedure, "!void", _, by simp, rfl⟩, rfl⟩

theorem emission_eachOfX (session : Session) :
    let named := session.resolve .variable "x"
    let capture := named.2.fresh (named.1 ++ "_item")
    (eachOfX.offer (setting {})).emission session =
      .ok (.statement (braces s!"for ({noItems}) |{capture.1}|"
        (s!"    {named.1} = {capture.1};\n" ++ "") ++ "\n"))
        { session with toLedger := capture.2 } := by
  intro named capture
  have hfind : catalog.find? "controls_forEach" = some ⟨eachLoop, false⟩ :=
    (find?_catalog (by decide)).trans rfl
  have hbody : (setting {}).trapLoop (Text.prefixLines "    " "") "" = "" := by decide +kernel
  rw [@emission_of_kind {} eachOfX "controls_forEach" _ rfl hfind, ← hbody]
  rfl

theorem render_crowded : ∃ codes session text,
    (setting {}).renderRoots crowded.roots ((setting {}).openProgram crowded (setting {}).session) =
      .ok codes session ∧
    (.helper "math_sum", realizeTemplate "    " sumTemplate "math_sum") ∈
      session.definitions.entries ∧
    (.procedure "f", text) ∈ session.definitions.entries ∧ IsProcedure "f" ["x"] text ∧
    IsVariable crowded session.names "values" ∧ IsVariable crowded session.names "x" := by
  let opened := (setting {}).openProgram crowded (setting {}).session
  let required := opened.require "std" "const std = @import(\"std\");"
  let provided : Session :=
    { opened with toLedger := (required.provide "    " "math_sum" sumTemplate).2 }
  have hfirst := renderRoot_of_value (emission_summed opened) rfl
  obtain ⟨text, htext, hdefined⟩ := emission_emptyProcedure provided
  have hsecond := renderRoot_of_nothing hdefined rfl rfl
  have hname : required.names.distinct "math_sum" = "math_sum" := by decide +kernel
  have hf : (provided.resolve .procedure "f").1 = "f" := by decide +kernel
  have hx : ((provided.resolve .procedure "f").2.resolve .variable "x").1 = "x" := by decide +kernel
  have hhelper : (.helper "math_sum", realizeTemplate "    " sumTemplate "math_sum") ∈
      provided.definitions.entries := by
    dsimp only [provided]
    rw [provide_of_not_lookup rfl, hname]
    exact Definitions.mem_insert _ _ _
  have hvalues : ((provided.resolve .procedure "f").2.resolve .variable "x").2.names.lookup
      .variable "values" = some "values" := by decide +kernel
  rw [hf, hx] at htext
  rw [hf] at hsecond
  refine ⟨_, _, text, renderRoots_cons hfirst (renderRoots_cons hsecond rfl), ?_, ?_, htext, ?_, ?_⟩
  · exact Definitions.mem_insert_of_ne hhelper (by simp)
  · exact Definitions.mem_insert _ _ _
  · exact ⟨"values", by decide, hvalues⟩
  · refine ⟨"x", by decide, ?_⟩
    have hlookup := Registry.lookup_resolve (provided.resolve .procedure "f").2.names .variable "x"
    exact hlookup.trans (congrArg some hx)

/-- The same, and a loop that takes its items by a word of its own. -/
def busy : Workspace :=
  ⟨crowded.variableNames, eachOfX :: crowded.roots⟩

theorem render_busy : ∃ codes session,
    (setting {}).renderRoots busy.roots ((setting {}).openProgram busy (setting {}).session) =
      .ok codes session ∧
    boundWords (mainFunction {} codes) = some ["x_item"] := by
  let opened := (setting {}).openProgram busy (setting {}).session
  let taken : Session :=
    { opened with toLedger := ((opened.resolve .variable "x").2.fresh "x_item").2 }
  let required := taken.require "std" "const std = @import(\"std\");"
  have hx : (opened.resolve .variable "x").1 = "x" := by decide +kernel
  have hword : "x" ++ "_item" = "x_item" := by decide
  have hcapture : ((opened.resolve .variable "x").2.fresh "x_item").1 = "x_item" := by
    decide +kernel
  have hname : (required.provide "    " "math_sum" sumTemplate).1 = "math_sum" := by decide +kernel
  have hfind : catalog.find? "controls_forEach" = some ⟨eachLoop, false⟩ :=
    (find?_catalog (by decide)).trans rfl
  have hloop := emission_eachOfX opened
  dsimp only at hloop
  rw [hx, hword, hcapture] at hloop
  have hsummed := emission_summed taken
  dsimp only at hsummed
  rw [hname] at hsummed
  obtain ⟨text, -, hdefined⟩ := emission_emptyProcedure
    { taken with toLedger := (required.provide "    " "math_sum" sumTemplate).2 }
  have hfirst := renderRoot_of_statement hloop rfl rfl rfl
  have hsecond := renderRoot_of_value hsummed rfl
  have hthird := renderRoot_of_nothing hdefined rfl rfl
  refine ⟨_, _,
    renderRoots_cons hfirst (renderRoots_cons hsecond (renderRoots_cons hthird rfl)), ?_⟩
  rw [catalog_setting, show eachOfX.kind = "controls_forEach" from rfl, hfind]
  decide +kernel

/-- The word of the loop hides nothing, and what the variable and the parameter are in the way of is
all that they are in the way of. -/
theorem locals_of_busy_hide_variables_and_procedures_only :
    let opened := (setting {}).openProgram busy (setting {}).session
    IsIndent ({} : Config).indentUnit.toList ∧ Modest {} ∧
      ∃ program, (setting {}).generate busy = .ok program ∧
      ∃ codes session calls front,
        (setting {}).renderRoots busy.roots opened = .ok codes session ∧
        ((setting {}).closeProgram (Text.join "\n" codes) session).1 =
          front ++ mainFunction {} codes ∧
        program = Text.tidy (front ++ mainFunction {} codes) ∧
        session.toLedger = opened.toLedger.after "    " calls ∧
        Sheltered {} busy session.toLedger (mainFunction {} codes)
          (temporaries "    " opened.toLedger calls) ∧
        boundWords (mainFunction {} codes) = some ["x_item"] ∧
        "x_item" ∉ fileScope session.definitions := by
  intro opened
  have hindent : IsIndent ({} : Config).indentUnit.toList := by decide
  have hmodest : Modest {} := Uninjected.modest ⟨rfl, rfl, rfl⟩
  obtain ⟨codes', session', hrun', hbound'⟩ := render_busy
  have hgenerate := generate_of_roots hrun'
  obtain ⟨codes, session, calls, front, hrun, hfront, hprogram, hcalls, hsheltered⟩ :=
    locals_hide_variables_and_procedures_only hindent hgenerate
  obtain ⟨rfl, rfl⟩ := EStateM.Result.ok.inj (hrun'.symm.trans hrun)
  obtain ⟨bound, hbound, hpassing⟩ := hsheltered.main hmodest
  obtain rfl := Option.some.inj (hbound'.symm.trans hbound)
  have hhidden := hsheltered.temporaries _ (hpassing (List.mem_singleton_self _))
  exact ⟨hindent, hmodest, _, hgenerate, _, _, calls, front, hrun, hfront, hprogram, hcalls,
    hsheltered, hbound', hhidden⟩

/-- A local name of a helper and a parameter of a procedure are declared at file scope. -/
theorem locals_of_crowded_are_declared_at_file_scope :
    ∃ program codes session, (setting {}).generate crowded = .ok program ∧
      (setting {}).renderRoots crowded.roots
        ((setting {}).openProgram crowded (setting {}).session) =
        .ok codes session ∧
      (∃ text bound,
        (.helper "math_sum", text) ∈ session.definitions.entries ∧ boundWords text = some bound ∧
        "values" ∈ bound ∧ "values" ∈ fileScope session.definitions) ∧
      ∃ text, (.procedure "f", text) ∈ session.definitions.entries ∧
        "x" ∈ parameters text ∧ "x" ∈ fileScope session.definitions := by
  obtain ⟨codes, session, text, hrun, hhelper, hprocedure, htext, hvalues, hx⟩ := render_crowded
  have hsteady := (apart_kept "    " crowded).renderRoots (supply_heeded {}) crowded.roots _
    (apart_opened {} crowded)
  rw [Synth.leaves_of_ok hrun] at hsteady
  have hsum : boundWords (realizeTemplate "    " sumTemplate "math_sum") =
      some ["values", "total", "v"] := by
    unfold sumTemplate
    exact boundWords_realizeTemplate (by decide +kernel) (by decide)
      ⟨by decide +kernel, by decide +kernel⟩
  have hparameters : parameters text = ["x"] :=
    parameters_of_isProcedure htext ⟨by decide +kernel, by decide +kernel⟩
      (List.forall_mem_singleton.mpr ⟨by decide +kernel, by decide +kernel⟩)
  refine ⟨_, codes, session, generate_of_roots hrun, hrun, ?_, ?_⟩
  · exact ⟨_, _, hhelper, hsum, by simp, hsteady.inv.mem_fileScope_of_isVariable hvalues⟩
  · refine ⟨text, hprocedure, ?_, hsteady.inv.mem_fileScope_of_isVariable hx⟩
    rw [hparameters]
    exact List.mem_singleton_self _

end Zig

end BlockSynth
