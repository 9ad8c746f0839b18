import BlockSynth.Proofs.Zig.FileScope

/-! # Declared names keep their identifiers

The variables of a workspace and the procedures that its roots define get their identifiers before
the first root is rendered, and an identifier that has been given out is not taken back by anything
that an emitter can ask for. So what they are called depends on the declarations alone, and on
nothing that stands in the bodies.
-/
namespace BlockSynth

/-- The session after as many roots of a workspace, or where the first fault among
them has left it. -/
def Setting.passed (setting : Setting) (workspace : Workspace) (count : Nat) : Session :=
  (setting.renderRoots (workspace.roots.take count)).leaves
    (setting.openProgram workspace setting.session)

/-! ### Scripts without rules -/

/-- Rules that forbid nothing. -/
def Rules.free : Rules where
  helper _ _ _ := True
  require _ := True
  define _ _ _ := True

theorem Script.heeds_free {α : Type} (script : Script α) (notes : Notes) :
    script.Heeds Rules.free (fun _ _ => True) notes := by
  induction script generalizing notes with
  | done answer => exact trivial
  | fail fault => exact trivial
  | value slot rank next ih => exact fun code => ih code notes
  | statements slot next ih => exact fun code => ih code notes
  | loopBody slot next ih => exact fun code => ih code notes
  | enclosingLoop next ih => exact fun id => ih id notes
  | resolve space name next ih => exact fun word => ih word _
  | fresh name next ih => exact fun word => ih word notes
  | helper key template next ih => exact ⟨trivial, fun word => ih word notes⟩
  | require tag text next ih => exact ⟨trivial, ih _⟩
  | define name text next ih => exact ⟨trivial, ih notes⟩

theorem Setting.heeds_free (setting : Setting) : setting.Heeds Rules.free :=
  fun entry _ node => (entry.2.script setting.config node).heeds_free {}

namespace Zig

/-! ### One name -/

/-- An identifier that a name has been resolved to stays with it, whatever is asked of
the ledger. -/
theorem lookup_kept (unit : String) (space : Namespace) (name word : String) :
    Rules.free.Keep unit fun ledger => ledger.names.lookup space name = some word where
  resolve ledger space' name' h := Registry.lookup_resolve_of_lookup h space' name'
  fresh _ _ h := h
  provide ledger notes key template _ _ h := by
    cases hlookup : ledger.helpers.lookup key template with
    | some name' =>
      rw [Ledger.provide_of_lookup hlookup]
      exact h
    | none =>
      -- A helper takes a name that is new, and enters it in no namespace.
      rw [Ledger.provide_of_not_lookup hlookup]
      exact h
  require _ _ _ _ h := h
  define _ _ _ _ _ _ h := h

theorem lookup_passed {setting : Setting} {workspace : Workspace}
    {space : Namespace} {name word : String}
    (h : (setting.openProgram workspace setting.session).names.lookup space name = some word)
    (count : Nat) :
    (setting.passed workspace count).names.lookup space name = some word := by
  have hkept := lookup_kept setting.config.indentUnit space name word
  exact (hkept.renderRoots setting.heeds_free (workspace.roots.take count) _ h).inv

/-! ### Opening -/

theorem exists_lookup_resolveAll (names : Registry) (space : Namespace)
    {list : List String} {name : String} (hname : name ∈ list) :
    ∃ word, (names.resolveAll space list).2.lookup space name = some word := by
  induction list generalizing names with
  | nil => simp at hname
  | cons first rest ih =>
    rcases List.mem_cons.mp hname with rfl | hrest
    · exact ⟨_,
        Registry.lookup_resolveAll_of_lookup (Registry.lookup_resolve names space name) space rest⟩
    · exact ih (names.resolve space first).2 hrest

theorem names_opening (workspace : Workspace) (ledger : Ledger) :
    (opening workspace ledger).names =
      ((ledger.names.resolveAll .variable workspace.variableNames).2.resolveAll .procedure
        (workspace.roots.filterMap definedName)).2 := rfl

/-- Opening resolves every variable of the workspace and every procedure that one of
its roots defines. -/
theorem exists_lookup_opening (workspace : Workspace) (ledger : Ledger) :
    (∀ name ∈ workspace.variableNames, ∃ word,
      (opening workspace ledger).names.lookup .variable name = some word) ∧
    (∀ name ∈ workspace.roots.filterMap definedName, ∃ word,
      (opening workspace ledger).names.lookup .procedure name = some word) := by
  rw [names_opening]
  constructor
  · intro name hname
    obtain ⟨word, hword⟩ := exists_lookup_resolveAll ledger.names .variable hname
    exact ⟨word, Registry.lookup_resolveAll_of_lookup hword .procedure _⟩
  · intro name hname
    exact exists_lookup_resolveAll _ .procedure hname

theorem names_openProgram_congr {workspace edited : Workspace} (config : Config)
    (hvariables : workspace.variableNames = edited.variableNames)
    (hprocedures : workspace.roots.filterMap definedName = edited.roots.filterMap definedName) :
    ((setting config).openProgram workspace (setting config).session).names =
      ((setting config).openProgram edited (setting config).session).names := by
  show (opening workspace _).names = (opening edited _).names
  rw [names_opening, names_opening, hvariables, hprocedures]

/-- Two workspaces that declare the same variables, and whose roots define procedures
of the same names, call them the same, from the beginning to the end of their runs or
to the fault at which a run stops. -/
theorem declarations_are_named_apart_from_bodies {config : Config} {workspace edited : Workspace}
    (hvariables : workspace.variableNames = edited.variableNames)
    (hprocedures : workspace.roots.filterMap definedName = edited.roots.filterMap definedName) :
    (∀ name ∈ workspace.variableNames, ∃ word, ∀ count,
      ((setting config).passed workspace count).names.lookup .variable name = some word ∧
        ((setting config).passed edited count).names.lookup .variable name = some word) ∧
    (∀ name ∈ workspace.roots.filterMap definedName, ∃ word, ∀ count,
      ((setting config).passed workspace count).names.lookup .procedure name = some word ∧
        ((setting config).passed edited count).names.lookup .procedure name = some word) := by
  have hopened := names_openProgram_congr config hvariables hprocedures
  have hboth : ∀ {space name word},
      ((setting config).openProgram workspace (setting config).session).names.lookup space name =
        some word →
      ∀ count, ((setting config).passed workspace count).names.lookup space name = some word ∧
        ((setting config).passed edited count).names.lookup space name = some word := by
    intro space name word hword count
    constructor
    · exact lookup_passed hword count
    · rw [hopened] at hword
      exact lookup_passed hword count
  obtain ⟨hdeclared, hdefined⟩ := exists_lookup_opening workspace (setting config).session.toLedger
  constructor
  · intro name hname
    obtain ⟨word, hword⟩ := hdeclared name hname
    exact ⟨word, hboth hword⟩
  · intro name hname
    obtain ⟨word, hword⟩ := hdefined name hname
    exact ⟨word, hboth hword⟩

/-- A workspace whose variables want the names of a helper and of a procedure, and one that declares
the same but stops at a node of an unknown kind, after it has asked for a name of its own. -/
theorem declarations_beside_other_bodies_are_named_alike :
    let define (body : List (String × Node)) : Node :=
      { kind := "procedures_defnoreturn", fields := [("NAME", .text "total")], statements := body }
    let workspace : Workspace :=
      ⟨["text_reverse", "total"], [{ kind := "text_reverse" }, define []]⟩
    let stray : Node := { kind := "variables_set", fields := [("VAR", .text "total 2")] }
    let edited : Workspace :=
      ⟨["text_reverse", "total"], [stray, define [("STACK", { kind := "unheard of" })], stray]⟩
    ∀ count, ((setting {}).passed workspace count).names.lookup .variable "total" = some "total" ∧
      ((setting {}).passed edited count).names.lookup .variable "total" = some "total" ∧
      ((setting {}).passed workspace count).names.lookup .procedure "total" = some "total2" ∧
      ((setting {}).passed edited count).names.lookup .procedure "total" = some "total2" := by
  intro define workspace stray edited count
  obtain ⟨hvariable, hprocedure⟩ :=
    @declarations_are_named_apart_from_bodies {} workspace edited rfl (by decide +kernel)
  obtain ⟨word, hword⟩ := hvariable "total" (by decide)
  obtain ⟨word', hword'⟩ := hprocedure "total" (by decide +kernel)
  have hopened : ((setting {}).passed workspace 0).names.lookup .variable "total" = some "total" ∧
      ((setting {}).passed workspace 0).names.lookup .procedure "total" = some "total2" := by
    decide +kernel
  obtain rfl : word = "total" := Option.some.inj ((hword 0).1.symm.trans hopened.1)
  obtain rfl : word' = "total2" := Option.some.inj ((hword' 0).1.symm.trans hopened.2)
  exact ⟨(hword count).1, (hword count).2, (hword' count).1, (hword' count).2⟩

end Zig

end BlockSynth
