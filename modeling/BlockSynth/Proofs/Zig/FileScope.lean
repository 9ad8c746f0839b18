import BlockSynth.Proofs.Zig.Imports

/-! # What a program declares at file scope

The names of variables, procedures and helpers all come from one registry, which gives
out nothing twice and nothing that is reserved, and a definition that is given again
takes the place of the old one. So no two definitions declare the same identifier.
Within the block of variables there is one line for every entry of the list that the
workspace has, and an entry that stands there twice is declared twice.
-/
namespace BlockSynth.Zig

/-! ### Declarations -/

/-- The identifier that a line declares as a variable. -/
def declaredByLine (line : List Char) : Option String :=
  let word := (line.drop 4).takeWhile Chars.isWordChar
  if line = "var ".toList ++ word ++ ": f32 = 0;".toList then some (String.ofList word) else none

/-- The identifiers that a definition declares. -/
def declared : DefinitionKey × String → List String
  | (.importing tag, _) => [tag]
  | (.variableBlock, text) => (Chars.splitLines text.toList).filterMap declaredByLine
  | (.helper name, _) => [name]
  | (.procedure name, _) => [name]

/-- The identifiers that a program with these definitions declares at file scope. -/
def fileScope (definitions : Definitions) : List String :=
  definitions.entries.flatMap declared ++ ["main"]

def variableLine (word : String) : String :=
  s!"var {word}: f32 = 0;"

theorem toList_variableLine (word : String) :
    (variableLine word).toList = "var ".toList ++ word.toList ++ ": f32 = 0;".toList := by
  show ("var " ++ word ++ ": f32 = 0;").toList = _
  rw [String.toList_append, String.toList_append]

theorem declaredByLine_variableLine {word : String} (h : IsName word) :
    declaredByLine (variableLine word).toList = some word := by
  have hword : ((variableLine word).toList.drop 4).takeWhile Chars.isWordChar = word.toList := by
    have hdrop : (variableLine word).toList.drop 4 = word.toList ++ ": f32 = 0;".toList := by
      rw [toList_variableLine]
      rfl
    rw [hdrop, List.takeWhile_append_of_pos h.isPlain.isWordChar]
    simp [Chars.isWordChar]
  unfold declaredByLine
  simp only [hword]
  rw [if_pos (toList_variableLine word), String.ofList_toList]

theorem newline_not_mem_variableLine {word : String} (h : IsName word) :
    '\n' ∉ (variableLine word).toList := by
  rw [toList_variableLine]
  simp only [List.mem_append, not_or]
  refine ⟨⟨by decide, fun hmem => ?_⟩, by decide⟩
  have hchar := h.isPlain.isWordChar _ hmem
  simp [Chars.isWordChar] at hchar

def variableBlock (words : List String) : String :=
  Text.join "\n" (words.map variableLine)

theorem declared_variableBlock {words : List String} (h : ∀ word ∈ words, IsName word) :
    declared (.variableBlock, variableBlock words) = words := by
  by_cases hnil : words = []
  · subst hnil
    rfl
  · have hlines : ∀ line ∈ (words.map variableLine).map String.toList, '\n' ∉ line := by
      simp only [List.map_map, List.forall_mem_map]
      exact fun word hword => newline_not_mem_variableLine (h word hword)
    simp only [declared, variableBlock, toList_join_newline]
    rw [Chars.splitLines_joinLines (by simpa using hnil) hlines, List.map_map, List.filterMap_map]
    have hread : ∀ word ∈ words, (declaredByLine ∘ String.toList ∘ variableLine) word = some word :=
      fun word hword => declaredByLine_variableLine (h word hword)
    rw [List.filterMap_congr hread, List.filterMap_some]

/-! ### Spelling -/

/-- The identifiers of variables, one after the other. -/
def Spelling (names : Registry) : List String → List String → Prop :=
  List.Forall₂ fun name word => names.lookup .variable name = some word

theorem Spelling.mono {names later : Registry} {list words : List String}
    (h : Spelling names list words)
    (hlater : ∀ name word,
      names.lookup .variable name = some word → later.lookup .variable name = some word) :
    Spelling later list words :=
  h.imp hlater

theorem spelled_resolveAll (names : Registry) (list : List String) :
    Spelling (names.resolveAll .variable list).2 list (names.resolveAll .variable list).1 := by
  induction list generalizing names with
  | nil => exact List.Forall₂.nil
  | cons name rest ih =>
    exact List.Forall₂.cons (Registry.lookup_resolveAll_of_lookup
        (Registry.lookup_resolve names .variable name) .variable rest)
      (ih (names.resolve .variable name).2)

/-- Words repeat where names do. -/
theorem Spelling.nodup_iff {names : Registry} {list words : List String}
    (h : Spelling names list words) (hnames : WellNamed names) : words.Nodup ↔ list.Nodup := by
  refine (List.rel_nodup ⟨?_, ?_⟩ h).symm
  · exact fun _ _ _ hlookup hlookup' => (hnames.lookup_injective hlookup hlookup').2
  · exact fun _ _ _ hlookup hlookup' => Option.some.inj (hlookup.symm.trans hlookup')

theorem Spelling.mem_resolved {names : Registry} {list words : List String}
    (h : Spelling names list words) {word : String} (hword : word ∈ words) :
    ∃ name, ((.variable, name), word) ∈ names.resolved := by
  induction h with
  | nil => simp at hword
  | cons hlookup _ ih =>
    rcases List.mem_cons.mp hword with rfl | hrest
    · exact ⟨_, Keyed.mem_of_lookup hlookup⟩
    · exact ih hrest

/-! ### Owners -/

/-- What the definition under a key may declare. -/
def Owns (names : Registry) : DefinitionKey → String → Prop
  | .importing tag, word => word = tag ∧ (tag = "std" ∨ tag = "allocator")
  | .variableBlock, word => ∃ name, ((.variable, name), word) ∈ names.resolved
  | .helper name, word =>
    word = name ∧ IsName name ∧ name ∈ names.issued ∧ name ∉ names.resolved.map Prod.snd
  | .procedure name, word => word = name ∧ ∃ logical, ((.procedure, logical), name) ∈ names.resolved

variable {names : Registry} {key key' : DefinitionKey} {word : String}

/-- Imports take their names from the reserved words and everything else does not. -/
theorem Owns.isName_iff (h : Owns names key word) (hnames : WellNamed names) :
    IsName word ↔ key.isImport = false := by
  cases key with
  | importing tag =>
    obtain ⟨rfl, htag⟩ := h
    have hreserved : word ∈ reservedWords := by
      rcases htag with rfl | rfl <;> decide
    exact ⟨fun hname => absurd hreserved hname.not_mem,
      fun himport => by simp [DefinitionKey.isImport] at himport⟩
  | variableBlock =>
    obtain ⟨name, hmem⟩ := h
    exact iff_of_true (hnames.resolved _ hmem) rfl
  | helper name =>
    obtain ⟨rfl, hname, -⟩ := h
    exact iff_of_true hname rfl
  | procedure name =>
    obtain ⟨rfl, logical, hmem⟩ := h
    exact iff_of_true (hnames.resolved _ hmem) rfl

/-- No identifier has two owners. -/
theorem Owns.key_eq (h : Owns names key word)
    (h' : Owns names key' word) (hnames : WellNamed names) :
    key = key' := by
  have himport : key.isImport = false ↔ key'.isImport = false :=
    (h.isName_iff hnames).symm.trans (h'.isName_iff hnames)
  have hspace : ∀ {space space' : Namespace} {name name' : String},
      ((space, name), word) ∈ names.resolved →
      ((space', name'), word) ∈ names.resolved → space = space' := by
    intro space space' name name' hmem hmem'
    have hsame := List.inj_on_of_nodup_map hnames.apart hmem hmem' rfl
    exact congrArg (·.1.1) hsame
  cases key with
  | importing tag =>
    cases key' with
    | importing tag' => rw [← h.1, ← h'.1]
    | _ => simp [DefinitionKey.isImport] at himport
  | variableBlock =>
    obtain ⟨name, hmem⟩ := h
    cases key' with
    | importing tag' => simp [DefinitionKey.isImport] at himport
    | variableBlock => rfl
    | helper name' =>
      obtain ⟨rfl, -, -, hnot⟩ := h'
      exact absurd (List.mem_map_of_mem hmem) hnot
    | procedure name' =>
      obtain ⟨rfl, logical, hmem'⟩ := h'
      exact absurd (hspace hmem hmem') (by simp)
  | helper name =>
    obtain ⟨rfl, -, -, hnot⟩ := h
    cases key' with
    | importing tag' => simp [DefinitionKey.isImport] at himport
    | variableBlock =>
      obtain ⟨name', hmem⟩ := h'
      exact absurd (List.mem_map_of_mem hmem) hnot
    | helper name' => rw [h'.1]
    | procedure name' =>
      obtain ⟨rfl, logical, hmem⟩ := h'
      exact absurd (List.mem_map_of_mem hmem) hnot
  | procedure name =>
    obtain ⟨rfl, logical, hmem⟩ := h
    cases key' with
    | importing tag' => simp [DefinitionKey.isImport] at himport
    | variableBlock =>
      obtain ⟨name', hmem'⟩ := h'
      exact absurd (hspace hmem hmem') (by simp)
    | helper name' =>
      obtain ⟨rfl, -, -, hnot⟩ := h'
      exact absurd (List.mem_map_of_mem hmem) hnot
    | procedure name' => rw [h'.1]

theorem Owns.ne_main (h : Owns names key word) (hnames : WellNamed names) : word ≠ "main" := by
  rintro rfl
  have hnot : ¬IsName "main" := fun hname => hname.not_mem (by decide)
  rw [h.isName_iff hnames] at hnot
  cases key with
  | importing tag =>
    obtain ⟨rfl, htag⟩ := h
    simp at htag
  | _ => exact hnot rfl

theorem Owns.fresh (h : Owns names key word) (name : String) :
    Owns (names.fresh name).2 key word := by
  cases key with
  | importing tag => exact h
  | variableBlock => exact h
  | helper name' => exact ⟨h.1, h.2.1, List.mem_cons_of_mem _ h.2.2.1, h.2.2.2⟩
  | procedure name' => exact h

theorem Owns.resolve (h : Owns names key word) (space : Namespace) (name : String) :
    Owns (names.resolve space name).2 key word := by
  cases hlookup : names.lookup space name with
  | some found =>
    rw [Registry.resolve_of_lookup hlookup]
    exact h
  | none =>
    rw [Registry.resolve_of_not_lookup hlookup]
    cases key with
    | importing tag => exact h
    | variableBlock =>
      obtain ⟨name', hmem⟩ := h
      exact ⟨name', List.mem_cons_of_mem _ hmem⟩
    | helper name' =>
      obtain ⟨rfl, hname, hissued, hnot⟩ := h
      refine ⟨rfl, hname, List.mem_cons_of_mem _ hissued, ?_⟩
      -- The new word has never been issued, and the name of the helper has.
      rw [List.map_cons, List.mem_cons, not_or]
      refine ⟨?_, hnot⟩
      rintro rfl
      exact (names.distinct_not_mem name).1 hissued
    | procedure name' =>
      obtain ⟨rfl, logical, hmem⟩ := h
      exact ⟨rfl, logical, List.mem_cons_of_mem _ hmem⟩

/-! ### The invariant -/

/-- Everything declared has its owner, and the variables of the workspace are declared
in one block. -/
structure Apart (workspace : Workspace) (ledger : Ledger) : Prop where
  names : WellNamed ledger.names
  keys : ledger.definitions.keys.Nodup
  owned : ∀ entry ∈ ledger.definitions.entries, ∀ word ∈ declared entry,
    Owns ledger.names entry.1 word
  spelled : ∀ text, (.variableBlock, text) ∈ ledger.definitions.entries →
    ∃ words, text = variableBlock words ∧ Spelling ledger.names workspace.variableNames words
  block : workspace.variableNames ≠ [] → .variableBlock ∈ ledger.definitions.keys

variable {workspace : Workspace} {ledger : Ledger}

/-- The block of variables declares the identifiers of the variables. -/
theorem Apart.exists_declared (h : Apart workspace ledger) {text : String}
    (htext : (.variableBlock, text) ∈ ledger.definitions.entries) :
    ∃ words, Spelling ledger.names workspace.variableNames words ∧
      declared (.variableBlock, text) = words := by
  obtain ⟨words, rfl, hspelled⟩ := h.spelled text htext
  refine ⟨words, hspelled, declared_variableBlock fun word hword => ?_⟩
  obtain ⟨name, hmem⟩ := hspelled.mem_resolved hword
  exact h.names.resolved _ hmem

theorem Apart.insert (h : Apart workspace ledger)
    {key : DefinitionKey} {text : String} (hkey : key ≠ .variableBlock)
    (howns : ∀ word ∈ declared (key, text), Owns ledger.names key word) :
    Apart workspace { ledger with definitions := ledger.definitions.insert key text } where
  names := h.names
  keys := Definitions.nodup_keys_insert h.keys
  owned entry hentry := by
    rcases Definitions.mem_of_mem_insert hentry with hold | rfl
    · exact h.owned entry hold
    · exact howns
  spelled text' hentry := by
    rcases Definitions.mem_of_mem_insert hentry with hold | heq
    · exact h.spelled text' hold
    · exact absurd (congrArg Prod.fst heq).symm hkey
  block hne := Definitions.mem_keys_insert.mpr (.inl (h.block hne))

theorem Apart.withNames (h : Apart workspace ledger) {names : Registry} (hnames : WellNamed names)
    (howns : ∀ key word, Owns ledger.names key word → Owns names key word)
    (hlookup : ∀ name word, ledger.names.lookup .variable name = some word →
      names.lookup .variable name = some word) : Apart workspace { ledger with names } where
  names := hnames
  keys := h.keys
  owned entry hentry word hword := howns _ _ (h.owned entry hentry word hword)
  spelled text htext := by
    obtain ⟨words, heq, hspelled⟩ := h.spelled text htext
    exact ⟨words, heq, hspelled.mono hlookup⟩
  block := h.block

theorem Apart.fresh (h : Apart workspace ledger) (name : String) :
    Apart workspace (ledger.fresh name).2 :=
  h.withNames (h.names.fresh name).2 (fun _ _ howns => howns.fresh name) fun _ _ hlookup => hlookup

theorem apart_kept (unit : String) (workspace : Workspace) :
    supply.Keep unit (Apart workspace) where
  resolve ledger space name h := h.withNames (h.names.resolve space name).2
    (fun _ _ howns => howns.resolve space name)
    fun _ _ hlookup => Registry.lookup_resolve_of_lookup hlookup space name
  fresh ledger name h := h.fresh name
  provide ledger notes key template _ _ h := by
    cases hlookup : ledger.helpers.lookup key template with
    | some name =>
      rw [Ledger.provide_of_lookup hlookup]
      exact h
    | none =>
      rw [Ledger.provide_of_not_lookup hlookup]
      have hfresh := h.fresh key
      have hnew : ledger.names.distinct key ∉ ledger.names.resolved.map Prod.snd := by
        intro hmem
        obtain ⟨entry, hentry, heq⟩ := List.mem_map.mp hmem
        exact (ledger.names.distinct_not_mem key).1 (heq ▸ h.names.issued entry hentry)
      have hinsert := @Apart.insert _ _ hfresh (.helper (ledger.names.distinct key))
        (realizeTemplate unit template (ledger.names.distinct key)) (by simp) (by
          intro word hword
          exact ⟨List.mem_singleton.mp hword, (h.names.fresh key).1, List.mem_cons_self, hnew⟩)
      exact ⟨hinsert.names, hinsert.keys, hinsert.owned, hinsert.spelled, hinsert.block⟩
  require ledger tag text hrequire h := by
    rcases ledger.require_cases tag text with heq | heq
    · rw [heq]
      exact h
    · rw [heq]
      exact h.insert (by simp) fun word hword => ⟨List.mem_singleton.mp hword, hrequire⟩
  define ledger notes name text hhold hdefine h :=
    h.insert (by simp) fun word hword => ⟨List.mem_singleton.mp hword, hhold.words _ hdefine.named⟩

theorem apart_opened (config : Config) (workspace : Workspace) :
    Apart workspace ((setting config).openProgram workspace (setting config).session).toLedger := by
  have hnames := ((named_session config).openProgram config workspace).names
  have hspelled := (spelled_resolveAll (setting config).session.names workspace.variableNames).mono
    fun name word hlookup =>
      Registry.lookup_resolveAll_of_lookup hlookup .procedure
        (workspace.roots.filterMap definedName)
  obtain ⟨list, roots⟩ := workspace
  cases list with
  | nil =>
    exact ⟨hnames, List.nodup_nil, List.forall_mem_nil _,
      fun _ hentry => absurd hentry List.not_mem_nil, fun hne => absurd rfl hne⟩
  | cons name rest =>
    have hwords : ∀ word ∈ ((setting config).session.names.resolveAll .variable (name :: rest)).1,
        IsName word :=
      ((named_session config).names.resolveAll .variable (name :: rest)).1
    refine ⟨hnames, List.nodup_singleton _, ?_, ?_, fun _ => List.mem_singleton_self _⟩
    · refine List.forall_mem_singleton.mpr fun word hword => ?_
      refine hspelled.mem_resolved ?_
      rw [← declared_variableBlock hwords]
      exact hword
    · rintro text hentry
      exact ⟨_, (Prod.mk.inj (List.mem_singleton.mp hentry)).2, hspelled⟩

/-! ### File scope -/

theorem Apart.nodup_fileScope_iff (h : Apart workspace ledger) :
    (fileScope ledger.definitions).Nodup ↔ workspace.variableNames.Nodup := by
  have hpairwise : ledger.definitions.entries.Pairwise (Function.onFun List.Disjoint declared) := by
    refine (List.pairwise_map.mp h.keys).imp_of_mem
      fun {entry other} hentry hother hne word hword hword' => ?_
    exact hne
      (Owns.key_eq (h.owned entry hentry word hword) (h.owned other hother word hword') h.names)
  have hmain : (ledger.definitions.entries.flatMap declared).Disjoint ["main"] := by
    intro word hword hmem
    obtain ⟨entry, hentry, hdeclared⟩ := List.mem_flatMap.mp hword
    exact (h.owned entry hentry word hdeclared).ne_main h.names (List.mem_singleton.mp hmem)
  have hsplit : (fileScope ledger.definitions).Nodup ↔
      ∀ entry ∈ ledger.definitions.entries, (declared entry).Nodup := by
    unfold fileScope
    rw [List.nodup_append', List.nodup_flatMap]
    exact ⟨fun hall => hall.1.1, fun hall => ⟨⟨hall, hpairwise⟩, List.nodup_singleton _, hmain⟩⟩
  have hblock : ∀ text, (.variableBlock, text) ∈ ledger.definitions.entries →
      ((declared (.variableBlock, text)).Nodup ↔ workspace.variableNames.Nodup) := by
    intro text htext
    obtain ⟨words, hspelled, hdeclared⟩ := h.exists_declared htext
    rw [hdeclared]
    exact hspelled.nodup_iff h.names
  rw [hsplit]
  constructor
  · intro hall
    by_cases hnil : workspace.variableNames = []
    · rw [hnil]
      exact List.nodup_nil
    · obtain ⟨⟨key, text⟩, hentry, rfl⟩ := List.mem_map.mp (h.block hnil)
      exact (hblock text hentry).mp (hall _ hentry)
  · rintro hnodup ⟨key, text⟩ hentry
    cases key with
    | variableBlock => exact (hblock text hentry).mpr hnodup
    | _ => exact List.nodup_singleton _

/-- The identifiers that a generated program declares at file scope are pairwise distinct if no
variable stands in the list of the workspace twice, and only then. -/
theorem file_scope_repeats_where_variables_do {config : Config} {workspace : Workspace}
    {program : String} (hgenerate : (setting config).generate workspace = .ok program) :
    ∃ codes session,
      (setting config).renderRoots workspace.roots
        ((setting config).openProgram workspace (setting config).session) = .ok codes session ∧
      program = Text.tidy ((setting config).closeProgram (Text.join "\n" codes) session).1 ∧
      ((fileScope session.definitions).Nodup ↔ workspace.variableNames.Nodup) := by
  have hsteady :=
    (apart_kept config.indentUnit workspace).renderRoots (supply_heeded config) workspace.roots
    _ (apart_opened config workspace)
  obtain ⟨codes, session, hrun, hprogram⟩ := exists_roots_of_generate hgenerate
  rw [Synth.leaves_of_ok hrun] at hsteady
  exact ⟨codes, session, hrun, hprogram, hsteady.inv.nodup_fileScope_iff⟩

/-- Variables that want the names of what the program has already, and a helper that
wants one of theirs. -/
theorem file_scope_of_clashing_names_repeats_nothing :
    let workspace : Workspace :=
      ⟨["std", "main", "text_reverse", "text reverse"], [{ kind := "text_reverse" }]⟩
    ∃ program, (setting {}).generate workspace = .ok program ∧
      ∃ codes session,
        (setting {}).renderRoots workspace.roots
          ((setting {}).openProgram workspace (setting {}).session) = .ok codes session ∧
        program = Text.tidy ((setting {}).closeProgram (Text.join "\n" codes) session).1 ∧
        (fileScope session.definitions).Nodup := by
  intro workspace
  obtain ⟨code, hemission⟩ :=
    emission_reversal ((setting {}).openProgram workspace (setting {}).session)
  have hroot := renderRoot_of_value hemission rfl
  obtain ⟨program, hgenerate⟩ : ∃ program, (setting {}).generate workspace = .ok program :=
    ⟨_, generate_of_roots (renderRoots_cons hroot rfl)⟩
  obtain ⟨codes, session, hrun, hprogram, hscope⟩ := file_scope_repeats_where_variables_do hgenerate
  exact ⟨program, hgenerate, codes, session, hrun, hprogram, hscope.mpr (by decide)⟩

/-- A variable that the workspace lists twice is declared twice. -/
theorem repeated_variable_is_declared_twice :
    let workspace : Workspace := ⟨["x", "x"], []⟩
    ∃ program session, (setting {}).generate workspace = .ok program ∧
      (setting {}).renderRoots workspace.roots
        ((setting {}).openProgram workspace (setting {}).session) = .ok [] session ∧
      ¬(fileScope session.definitions).Nodup := by
  intro workspace
  refine ⟨_, _, rfl, rfl, ?_⟩
  rw [(apart_opened {} workspace).nodup_fileScope_iff]
  decide

end BlockSynth.Zig
