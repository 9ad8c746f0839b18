import BlockSynth.Proofs.Zig.Sound.Catalog

/-! # Whatever a workspace says stays inside

Without injected text, a generated program closes every literal on the line it opens on and every
bracket it opens. No text, name or comment of the workspace can change that.
-/
namespace BlockSynth.Zig

variable {config : Config}

theorem closed_join {between : String} (hbetween : Closed between.toList) {texts : List String}
    (h : ∀ text ∈ texts, Closed text.toList) : Closed (Text.join between texts).toList := by
  have happend : ∀ code more : String,
      Closed code.toList → Closed more.toList → Closed (code ++ more).toList := by
    intro code more hcode hmore
    rw [String.toList_append]
    exact hcode.append hmore
  exact Text.join_of_forall Closed.nil happend hbetween h

theorem closed_newline : Closed "\n".toList := closed_of_spells "\n" (by decide)

theorem closed_blankLine : Closed "\n\n".toList := closed_of_spells "\n\n" (by decide)

/-! ### Opening -/

theorem closed_declarations {words : List String} (h : ∀ word ∈ words, IsName word) :
    Closed (Text.join "\n" (words.map fun word => s!"var {word}: f32 = 0;")).toList := by
  refine closed_join closed_newline fun line hline => ?_
  obtain ⟨word, hword, rfl⟩ := List.mem_map.mp hline
  have hname : Spells word [.operand .atomic] := (h word hword).spells
  exact closed_of_spells _ (by decide)

theorem Orderly.openProgram {plain : Prop} {own : String → Prop}
    {session : Session} (h : Orderly plain own session) (workspace : Workspace) :
    Orderly plain own ((setting config).openProgram workspace session) := by
  have hwords := (h.names.resolveAll .variable workspace.variableNames).1
  have hnamed := h.toNamed.openProgram config workspace
  refine ⟨hnamed, fun hp => ?_⟩
  show ∀ entry ∈ (opening workspace session.toLedger).definitions.entries, WellDefined own entry
  unfold opening
  dsimp only
  split
  · exact h.definitions hp
  · exact (h.insert fun _ => ⟨closed_declarations hwords, by simp⟩).definitions hp

theorem orderly_session (plain : Prop) (own : String → Prop) (config : Config) :
    Orderly plain own (setting config).session :=
  ⟨named_session config, fun _ => List.forall_mem_nil _⟩

/-! ### Assembling -/

theorem closed_section {entries : List (DefinitionKey × String)}
    (h : ∀ entry ∈ entries, Closed entry.2.toList) (keep : DefinitionKey × String → Bool) :
    ∀ text ∈ (entries.filter keep).map Prod.snd, Closed text.toList := by
  intro text htext
  obtain ⟨entry, hentry, rfl⟩ := List.mem_map.mp htext
  exact h entry (List.mem_filter.mp hentry).1

theorem closed_header {imports others : List String}
    (himports : ∀ text ∈ imports, Closed text.toList)
    (hothers : ∀ text ∈ others, Closed text.toList) :
    Closed ((header imports others).toList ++ ['\n']) := by
  have hrest : Closed
      (if others.isEmpty then "" else "\n\n" ++ Text.join "\n\n" others).toList := by
    split
    · exact Closed.nil
    · rw [String.toList_append]
      exact closed_blankLine.append (closed_join closed_blankLine hothers)
  have hall : Closed (Text.join "\n" imports ++
      if others.isEmpty then "" else "\n\n" ++ Text.join "\n\n" others).toList := by
    rw [String.toList_append]
    exact (closed_join closed_newline himports).append hrest
  unfold header
  rw [Text.trimNewlines, Text.collapseBlankLines, String.toList_ofList, String.toList_ofList]
  refine Closed.of_alike (alike_trimNewlines _) (Closed.append ?_ closed_newline)
  exact Closed.of_alike (alike_collapseBlankLines _) hall

theorem closed_assemble (hindent : IsIndent config.indentUnit.toList) {imports others : List String}
    {body : String} (himports : ∀ text ∈ imports, Closed text.toList)
    (hothers : ∀ text ∈ others, Closed text.toList) (hbody : Closed body.toList) :
    Closed (assemble config imports others body).toList := by
  have hlines : Spells (Text.prefixLines config.indentUnit body) [.closed] :=
    spells_iff.mpr (closed_prefixLines hindent hbody)
  have hmain : Closed
      (braces "pub fn main() !void" (Text.prefixLines config.indentUnit body)).toList := by
    unfold braces
    exact closed_of_spells _ (by decide)
  unfold assemble
  rw [String.toList_append]
  refine Closed.append ?_ hmain
  split
  · exact Closed.nil
  · rw [String.toList_append]
    have hbreaks : "\n\n\n".toList = ['\n'] ++ "\n\n".toList := rfl
    rw [hbreaks, ← List.append_assoc]
    exact (closed_header himports hothers).append closed_blankLine

theorem generated_programs_close_what_they_open {workspace : Workspace} {program : String}
    (hindent : IsIndent config.indentUnit.toList) (huninjected : Uninjected config)
    (hgenerate : (setting config).generate workspace = .ok program) :
    ∃ outline, outline? program.toList = some outline ∧ outline.opened = [] := by
  have hfair : Fair True config := ⟨hindent, fun _ => huninjected.modest⟩
  have hopened : Orderly True (fun _ => True)
      ((setting config).openProgram workspace (setting config).session) :=
    (orderly_session True _ config).openProgram workspace
  obtain ⟨codes, session, hrun, rfl⟩ := exists_roots_of_generate hgenerate
  obtain ⟨hcodes, horderly⟩ :=
    ((contract_upheld hfair).renderRoots workspace.roots).of_ok hopened hrun
  have hbody : Closed (Text.join "\n" codes).toList :=
    closed_join closed_newline fun code hcode => (hcodes code hcode trivial).closed
  have hentries := fun entry hentry => (horderly.definitions trivial entry hentry).closed
  have hprogram := closed_assemble hindent (closed_section hentries (·.1.isImport))
    (closed_section hentries (!·.1.isImport)) hbody
  refine Closed.outline?_eq ?_
  rw [Text.tidy, String.toList_ofList]
  exact Closed.of_alike (alike_tidy _) (hprogram.append closed_newline)

/-- Text, a comment and a variable that would each leave where they stand. -/
theorem hostile_program_closes_what_it_opens :
    let root : Node :=
      { kind := "text", fields := [("TEXT", .text "\"; ( // \n")], comment := some "[\n\" \x7d" }
    ∃ program, (setting {}).generate ⟨["x)"], [root]⟩ = .ok program ∧
      ∃ outline, outline? program.toList = some outline ∧ outline.opened = [] := by
  intro root
  have hemission : ∀ session, (root.offer (setting {})).emission session =
      .ok (.value (quote "\"; ( // \n") .atomic) session := by
    intro session
    have hfind : catalog.find? "text" = some ⟨textLiteral, false⟩ :=
      (find?_catalog (by decide)).trans rfl
    rw [@emission_of_kind {} root "text" _ rfl hfind]
    rfl
  obtain ⟨program, hprogram⟩ : ∃ program, (setting {}).generate ⟨["x)"], [root]⟩ = .ok program := by
    let opened := (setting {}).openProgram ⟨["x)"], [root]⟩ (setting {}).session
    have hroot := renderRoot_of_value (hemission opened) rfl
    have hroots : (setting {}).renderRoots [root] opened = .ok _ opened :=
      renderRoots_cons hroot rfl
    exact ⟨_, generate_of_roots hroots⟩
  have hindent : IsIndent ({} : Config).indentUnit.toList := by decide
  exact ⟨program, hprogram,
    @generated_programs_close_what_they_open {} _ _ hindent ⟨rfl, rfl, rfl⟩ hprogram⟩

end BlockSynth.Zig
