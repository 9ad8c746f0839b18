import BlockSynth.Proofs.Zig.Session
import BlockSynth.Proofs.Zig.Supply

/-! # Helpers have their imports

Whatever has been rendered, what the text of a helper mentions has been imported. The
one exception is the removal of an item from the end of a list, whose import nothing
but the list itself can bring.
-/
namespace BlockSynth.Zig

/-- Helpers that have their imports, with the exception. -/
def Equipped (unit : String) (ledger : Ledger) : Prop :=
  ∀ name text, (.helper name, text) ∈ ledger.definitions.entries →
    (Mentions "std." text → .importing "std" ∈ ledger.definitions.keys ∨
      text = realizeTemplate unit removeFromEndTemplate name) ∧
    (Mentions "allocator" text → .importing "allocator" ∈ ledger.definitions.keys)

variable {unit : String} {ledger : Ledger}

theorem Equipped.insert (h : Equipped unit ledger) {key : DefinitionKey} {text : String}
    (hkey : ∀ name, key = .helper name →
      (Mentions "std." text → .importing "std" ∈ ledger.definitions.keys ∨
        text = realizeTemplate unit removeFromEndTemplate name) ∧
      (Mentions "allocator" text → .importing "allocator" ∈ ledger.definitions.keys)) :
    Equipped unit { ledger with definitions := ledger.definitions.insert key text } := by
  have hkeys := (ledger.grows_insert key text).keys
  intro name text' hentry
  have hheld : (Mentions "std." text' → .importing "std" ∈ ledger.definitions.keys ∨
      text' = realizeTemplate unit removeFromEndTemplate name) ∧
      (Mentions "allocator" text' → .importing "allocator" ∈ ledger.definitions.keys) := by
    rcases Definitions.mem_of_mem_insert hentry with hold | hnew
    · exact h name text' hold
    · obtain ⟨rfl, rfl⟩ := Prod.mk.inj hnew
      exact hkey name rfl
  exact ⟨fun hstd => (hheld.1 hstd).imp_left fun hmem => hkeys hmem, fun hallocator =>
    hkeys (hheld.2 hallocator)⟩

/-- What may be asked for with the notes of a script keeps the helpers equipped. -/
theorem equipped_kept {unit : String} (hunit : IsIndent unit.toList) :
    supply.Keep unit (Equipped unit) where
  resolve _ _ _ h := h
  fresh _ _ h := h
  provide ledger notes key template hhold hcovered h := by
    cases hlookup : ledger.helpers.lookup key template with
    | some name =>
      rw [Ledger.provide_of_lookup hlookup]
      exact h
    | none =>
      rw [Ledger.provide_of_not_lookup hlookup]
      refine h.insert fun name hname => ?_
      obtain rfl : ledger.names.distinct key = name := DefinitionKey.helper.inj hname
      have hnamed := namedFor_distinct ledger.names key
      refine ⟨fun hstd => ?_, fun hallocator => ?_⟩
      · rcases hcovered.std with htag | homits | rfl
        · exact .inl (hhold.tags _ htag)
        · exact absurd hstd (homits unit _ hunit hnamed)
        · exact .inr rfl
      · rcases hcovered.allocator with htag | homits
        · exact hhold.tags _ htag
        · exact absurd hallocator (homits unit _ hunit hnamed)
  require ledger tag text _ h := by
    rcases ledger.require_cases tag text with heq | heq
    · rw [heq]
      exact h
    · rw [heq]
      exact h.insert (by simp)
  define ledger notes name text _ _ h := h.insert (by simp)

theorem supply_heeded (config : Config) : (setting config).Heeds supply := by
  unfold Setting.Heeds
  rw [catalog_setting]
  exact careful_catalog config

theorem equipped_opened (config : Config) (workspace : Workspace) :
    Equipped unit ((setting config).openProgram workspace (setting config).session).toLedger := by
  have hstart : Equipped unit (setting config).session.toLedger :=
    fun _ _ hentry => by simp [Setting.session] at hentry
  show Equipped unit (opening workspace (setting config).session.toLedger)
  unfold opening
  dsimp only
  split
  · exact hstart
  · exact hstart.insert (by simp)

theorem helpers_have_their_imports {config : Config}
    (hindent : IsIndent config.indentUnit.toList) {workspace : Workspace}
    {session : Session} (hunderway : Underway (setting config) workspace session)
    {name text : String} (hentry : (.helper name, text) ∈ session.definitions.entries) :
    (Mentions "std." text → .importing "std" ∈ session.definitions.keys ∨
      text = realizeTemplate config.indentUnit removeFromEndTemplate name) ∧
    (Mentions "allocator" text → .importing "allocator" ∈ session.definitions.keys) :=
  (equipped_kept hindent).underway (supply_heeded config) (equipped_opened config workspace)
    hunderway name text hentry

theorem emission_reversal (session : Session) :
    let required := (session.require "std" "const std = @import(\"std\");").require "allocator"
      "const allocator = std.heap.page_allocator;"
    ∃ code, ((({ kind := "text_reverse" } : Node)).offer (setting {})).emission session =
      .ok (.value code .unaryPrefix)
        { session with
          toLedger := (required.provide "    " "text_reverse" reverseTextTemplate).2 } := by
  have hfind : catalog.find? "text_reverse" = some ⟨reverseText, false⟩ :=
    (find?_catalog (by decide)).trans rfl
  rw [@emission_of_kind {} { kind := "text_reverse" } "text_reverse" _ rfl hfind]
  exact ⟨_, rfl⟩

/-- Text that is turned around by a helper that allocates. -/
theorem reversal_of_text_has_its_imports :
    let root : Node := { kind := "text_reverse" }
    let opened := (setting {}).openProgram {} (setting {}).session
    let session := ((setting {}).renderRoot root).leaves opened
    let text := realizeTemplate "    " reverseTextTemplate "text_reverse"
    IsIndent ({} : Config).indentUnit.toList ∧ Underway (setting {}) {} session ∧
      (.helper "text_reverse", text) ∈ session.definitions.entries ∧ Mentions "allocator" text ∧
      .importing "allocator" ∈ session.definitions.keys := by
  intro root opened session text
  have hindent : IsIndent ({} : Config).indentUnit.toList := by decide
  have hunderway : Underway (setting {}) {} session := .root root .opened
  have hentry : (.helper "text_reverse", text) ∈ session.definitions.entries := by
    obtain ⟨code, hemission⟩ := emission_reversal opened
    have hname : opened.names.distinct "text_reverse" = "text_reverse" := by decide +kernel
    have hroot := renderRoot_of_value hemission rfl
    dsimp only [session]
    rw [Synth.leaves_of_ok hroot]
    dsimp only
    rw [Ledger.provide_of_not_lookup rfl]
    dsimp only [Ledger.require]
    rw [hname]
    exact Definitions.mem_insert _ _ _
  have hmentions : Mentions "allocator" text := by
    dsimp only [text, reverseTextTemplate]
    exact mentions_of_verbatim (by decide) (by decide +kernel)
  exact ⟨hindent, hunderway, hentry, hmentions,
    (helpers_have_their_imports hindent hunderway hentry).2 hmentions⟩

/-! ### The exception -/

def madeList : Node :=
  { kind := "procedures_callreturn", fields := [("NAME", .text "make list")] }

/-- The last item of a list that a procedure makes, removed and used. -/
def removalFromEnd : Node :=
  { kind := "lists_getIndex"
    fields := [("MODE", .text "GET_REMOVE"), ("WHERE", .text "FROM_END")]
    inputs := [("VALUE", madeList)] }

theorem emission_madeList (session : Session) : ∃ code, code ≠ "" ∧
    (madeList.offer (setting {})).emission session = .ok (.value code .unaryPrefix)
      { session with toLedger := (session.resolve .procedure "make list").2 } := by
  have hfind : catalog.find? "procedures_callreturn" = some ⟨callForValue, false⟩ :=
    (find?_catalog (by decide)).trans rfl
  rw [@emission_of_kind {} madeList "procedures_callreturn" _ rfl hfind]
  refine ⟨"try " ++ (session.resolve .procedure "make list").1 ++ "(" ++ "" ++ ")", ?_, rfl⟩
  intro h
  simpa using congrArg String.toList h

theorem value_madeList (session : Session) : ∃ list, Text.isWord list = false ∧
    (madeList.offer (setting {})).value .unaryPostfix session = .ok (some list)
      { session with toLedger := (session.resolve .procedure "make list").2 } := by
  obtain ⟨code, hne, hemission⟩ := emission_madeList session
  refine ⟨"(" ++ code ++ ")", ?_, value_of_emission hemission rfl hne .unaryPostfix⟩
  simp [Text.isWord, Chars.isWord, Chars.isWordChar]

theorem emission_removalFromEnd (session : Session) : ∃ code,
    (removalFromEnd.offer (setting {})).emission session = .ok (.value code .unaryPostfix)
      { session with toLedger := ((session.resolve .procedure "make list").2.provide "    "
          "lists_remove_from_end" removeFromEndTemplate).2 } := by
  have hfind : catalog.find? "lists_getIndex" = some ⟨getItem, false⟩ :=
    (find?_catalog (by decide)).trans rfl
  rw [@emission_of_kind {} removalFromEnd "lists_getIndex" _ rfl hfind]
  obtain ⟨list, hword, hvalue⟩ := value_madeList session
  have hstep : (setting {}).ask removalFromEnd (getItem {} removalFromEnd) session =
      (setting {}).ask removalFromEnd (if usesTwice .getRemove .fromEnd && !Text.isWord list then
        accessComputed {} .getRemove .fromEnd list else accessDirect {} .getRemove .fromEnd list)
        { session with toLedger := (session.resolve .procedure "make list").2 } :=
    Synth.bind_of_ok hvalue _
  rw [hstep, if_pos (by simp [hword, usesTwice])]
  exact ⟨_, rfl⟩

/-- Nothing is imported for it. -/
theorem removal_from_end_lacks_its_import :
    ∃ session, Underway (setting {}) ⟨[], [removalFromEnd]⟩ session ∧
      ∃ name text, (.helper name, text) ∈ session.definitions.entries ∧ Mentions "std." text ∧
        .importing "std" ∉ session.definitions.keys := by
  let opened := (setting {}).openProgram ⟨[], [removalFromEnd]⟩ (setting {}).session
  obtain ⟨code, hemission⟩ := emission_removalFromEnd opened
  have hroot := renderRoot_of_value hemission rfl
  refine ⟨_, .root removalFromEnd .opened, ?_⟩
  rw [Synth.leaves_of_ok hroot]
  have hname : (opened.resolve .procedure "make list").2.names.distinct "lists_remove_from_end" =
      "lists_remove_from_end" := by
    decide +kernel
  have hdefinitions : ((opened.resolve .procedure "make list").2.provide
      "    " "lists_remove_from_end"
      removeFromEndTemplate).2.definitions = ⟨[(.helper "lists_remove_from_end",
        realizeTemplate "    " removeFromEndTemplate "lists_remove_from_end")]⟩ := by
    rw [Ledger.provide_of_not_lookup rfl, hname]
    rfl
  dsimp only
  rw [hdefinitions]
  refine ⟨_, _, List.mem_singleton_self _, ?_, by simp [Definitions.keys]⟩
  dsimp only [removeFromEndTemplate]
  exact mentions_of_verbatim (by decide) (by decide +kernel)

end BlockSynth.Zig
