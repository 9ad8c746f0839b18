import BlockSynth.Proofs.Zig.Contract
import BlockSynth.Zig.Target

/-! # Sessions of the Zig target

Every identifier of a session is a word that a Zig program can introduce, whatever has been rendered
so far and whatever the configuration is.
-/
namespace BlockSynth.Zig

variable {names : Registry} {session : Session}

theorem isName_distinct (h : WellNamed names) (name : String) : IsName (names.distinct name) where
  isIdentifier := names.isIdentifier_distinct name
  not_mem hmem := (names.distinct_not_mem name).2 (h.reserved _ hmem)

theorem WellNamed.fresh (h : WellNamed names) (name : String) :
    IsName (names.fresh name).1 ∧ WellNamed (names.fresh name).2 :=
  ⟨isName_distinct h name, h.reserved, h.resolved,
    fun entry hentry => List.mem_cons_of_mem _ (h.issued entry hentry), h.apart⟩

theorem WellNamed.resolve (h : WellNamed names) (space : Namespace) (name : String) :
    IsName (names.resolve space name).1 ∧ WellNamed (names.resolve space name).2 := by
  cases hlookup : names.lookup space name with
  | some word =>
    rw [Registry.resolve_of_lookup hlookup]
    exact ⟨h.resolved _ (Keyed.mem_of_lookup hlookup), h⟩
  | none =>
    rw [Registry.resolve_of_not_lookup hlookup]
    have hword := isName_distinct h name
    have hnew : names.distinct name ∉ names.resolved.map Prod.snd := by
      intro hmem
      obtain ⟨entry, hentry, heq⟩ := List.mem_map.mp hmem
      exact (names.distinct_not_mem name).1 (heq ▸ h.issued entry hentry)
    refine ⟨hword, h.reserved, List.forall_mem_cons.mpr ⟨hword, h.resolved⟩,
      List.forall_mem_cons.mpr ⟨List.mem_cons_self, fun entry hentry => ?_⟩,
      List.nodup_cons.mpr ⟨hnew, h.apart⟩⟩
    exact List.mem_cons_of_mem _ (h.issued entry hentry)

/-- Different names are spelled differently. -/
theorem WellNamed.lookup_injective (h : WellNamed names) {space space' : Namespace}
    {name name' word : String} (hlookup : names.lookup space name = some word)
    (hlookup' : names.lookup space' name' = some word) :
    space = space' ∧ name = name' := by
  have hsame := List.inj_on_of_nodup_map h.apart (Keyed.mem_of_lookup hlookup)
    (Keyed.mem_of_lookup hlookup') rfl
  simpa using hsame

theorem WellNamed.resolveAll (h : WellNamed names) (space : Namespace) (list : List String) :
    (∀ word ∈ (names.resolveAll space list).1, IsName word) ∧
      WellNamed (names.resolveAll space list).2 := by
  induction list generalizing names with
  | nil => exact ⟨List.forall_mem_nil _, h⟩
  | cons name rest ih =>
    have hfirst := h.resolve space name
    have hrest := ih hfirst.2
    exact ⟨List.forall_mem_cons.mpr ⟨hfirst.1, hrest.1⟩, hrest.2⟩

theorem catalog_setting (config : Config) : (setting config).target.catalog = catalog := by
  simp only [setting, target]

/-- A kind that is no alias has the emitter that was registered for it last. -/
theorem find?_catalog {kind : String} (h : kind ∉ aliases.map Prod.fst) :
    catalog.find? kind = emitters.reverse.lookup kind := by
  unfold catalog
  rw [Catalog.find?_withAliases _ h, Catalog.find?_registerAll]
  exact Option.or_none

theorem find?_catalog_alias {other kind : String} {emitter : Emitter}
    (hmem : (other, kind) ∈ aliases) (hkind : kind ∉ aliases.map Prod.fst)
    (h : catalog.find? kind = some emitter) :
    catalog.find? other = some emitter := by
  unfold catalog at h ⊢
  rw [Catalog.find?_withAliases _ hkind] at h
  exact Catalog.find?_withAliases_of_mem hmem (by decide) hkind h

/-- An emitter that is found has been registered under the kind, or under the one that
it is an alias of. -/
theorem registered_of_find? {kind : String} {emitter : Emitter}
    (h : catalog.find? kind = some emitter) :
    ∃ name, (name, emitter) ∈ emitters ∧ (name = kind ∨ (kind, name) ∈ aliases) := by
  have hmem : ∀ {name : String}, name ∉ aliases.map Prod.fst → catalog.find? name = some emitter →
      (name, emitter) ∈ emitters := by
    intro name hname hfind
    rw [find?_catalog hname] at hfind
    exact List.mem_reverse.mp (Keyed.mem_of_lookup hfind)
  by_cases hkind : kind ∈ aliases.map Prod.fst
  · have htargets : ∀ pair ∈ aliases,
        pair.2 ∉ aliases.map Prod.fst ∧ (emitters.reverse.lookup pair.2).isSome := by
      decide
    obtain ⟨⟨other, name⟩, halias, rfl⟩ := List.mem_map.mp hkind
    obtain ⟨hname, hsome⟩ := htargets _ halias
    obtain ⟨found, hfound⟩ := Option.isSome_iff_exists.mp hsome
    have hfind : catalog.find? name = some found := (find?_catalog hname).trans hfound
    obtain rfl : found = emitter :=
      Option.some.inj ((find?_catalog_alias halias hname hfind).symm.trans h)
    exact ⟨name, hmem hname hfind, .inr halias⟩
  · exact ⟨kind, hmem hkind h, .inl rfl⟩

theorem emission_of_kind {config : Config} {node : Node} {kind : String}
    {emitter : Emitter} (hkind : node.kind = kind) (h : catalog.find? kind = some emitter) :
    (node.offer (setting config)).emission =
      (setting config).ask node (emitter.script config node) := by
  subst hkind
  rw [← catalog_setting config] at h
  exact emission_of_find? h

/-! ### The ledger -/

theorem Named.resolve (h : Named session) (space : Namespace) (name : String) :
    IsName (session.resolve space name).1 ∧
      Named { session with toLedger := (session.resolve space name).2 } := by
  have hnames := h.names.resolve space name
  exact ⟨hnames.1, hnames.2, h.realized⟩

theorem Named.fresh (h : Named session) (name : String) :
    IsName (session.fresh name).1 ∧ Named { session with toLedger := (session.fresh name).2 } := by
  have hnames := h.names.fresh name
  exact ⟨hnames.1, hnames.2, h.realized⟩

/-- A helper that is realized already has its name, and any other one gets a new name. -/
theorem provide_cases (ledger : Ledger) (unit key template : String) :
    (∃ name, ((key, template), name) ∈ ledger.helpers.realized ∧
      ledger.provide unit key template = (name, ledger)) ∨
    (ledger.provide unit key template).1 = (ledger.names.fresh key).1 ∧
      (ledger.provide unit key template).2.names = (ledger.names.fresh key).2 ∧
      (ledger.provide unit key template).2.helpers.realized =
        ((key, template), (ledger.names.fresh key).1) :: ledger.helpers.realized ∧
      (ledger.provide unit key template).2.definitions =
        ledger.definitions.insert (.helper (ledger.names.fresh key).1)
          (realizeTemplate unit template (ledger.names.fresh key).1) := by
  unfold Ledger.provide
  cases hlookup : ledger.helpers.lookup key template with
  | some name => exact .inl ⟨name, Keyed.mem_of_lookup hlookup, rfl⟩
  | none => exact .inr ⟨rfl, rfl, rfl, rfl⟩

theorem Named.provide (h : Named session) (unit key template : String) :
    IsName (session.provide unit key template).1 ∧
      Named { session with toLedger := (session.provide unit key template).2 } := by
  rcases provide_cases session.toLedger unit key template with ⟨name, hmem, heq⟩
    | ⟨hname, hnames, hrealized, -⟩
  · rw [heq]
    exact ⟨h.realized _ hmem, h⟩
  · have hfresh := h.names.fresh key
    rw [hname]
    refine ⟨hfresh.1, ?_, ?_⟩
    · show WellNamed (session.provide unit key template).2.names
      rw [hnames]
      exact hfresh.2
    · show ∀ entry ∈ (session.provide unit key template).2.helpers.realized, IsName entry.2
      rw [hrealized]
      exact List.forall_mem_cons.mpr ⟨hfresh.1, h.realized⟩

theorem named_session (config : Config) : Named (setting config).session where
  names :=
    ⟨fun _ hword => List.mem_append_left _ (List.mem_append_right _ hword), List.forall_mem_nil _,
    List.forall_mem_nil _, List.nodup_nil⟩
  realized := List.forall_mem_nil _

theorem Named.openProgram (h : Named session) (config : Config) (workspace : Workspace) :
    Named ((setting config).openProgram workspace session) := by
  have hvariables := h.names.resolveAll .variable workspace.variableNames
  have hprocedures := hvariables.2.resolveAll .procedure (workspace.roots.filterMap definedName)
  exact ⟨hprocedures.2, h.realized⟩

/-! ### Reachable sessions -/

/-- The contract that only concerns names. -/
def naming : Contract where
  value _ _ := True
  lines _ _ := True
  body _ _ := True
  loop _ := True
  word word := IsName word
  helper _ := True
  require _ := True
  define _ := True
  session := Named
  emission _ := True
  chain _ := True

theorem naming_upheld (config : Config) : naming.Upheld (setting config) where
  resolve _ space name h := h.resolve space name
  fresh _ name h := h.fresh name
  provide _ key template _ h := h.provide _ key template
  require _ _ _ _ h := ⟨h.names, h.realized⟩
  define _ _ _ _ h := ⟨h.names, h.realized⟩
  loops _ _ h := ⟨h.names, h.realized⟩
  wrap _ _ _ _ _ := trivial
  statement _ _ _ _ _ := trivial
  naked _ _ _ _ _ := trivial
  chain_nil := trivial
  chain_append _ _ _ _ := trivial
  lines _ _ _ := trivial
  loopBody _ _ _ _ := trivial
  loop _ := trivial
  emitter _ emitter _ node := (emitter.script config node).meets_of_forall (fun _ => trivial)
    (fun _ => trivial) (fun _ => trivial) fun _ => trivial

theorem named_of_reachable {config : Config}
    (h : Reachable (setting config) session) : Named session :=
  h.session (naming_upheld config) (fun _ => trivial) (fun _ => trivial) (fun _ => trivial)
    (named_session config) (fun _ workspace hnamed => Named.openProgram hnamed config workspace)
    fun _ _ hnamed => ⟨hnamed.names, hnamed.realized⟩

end BlockSynth.Zig
