import BlockSynth.Proofs.Abreast
import BlockSynth.Proofs.Provision
import BlockSynth.Proofs.Zig.Pace
import BlockSynth.Proofs.Zig.Session

/-! # Comments change no code

The program of a workspace is that of the same workspace without comments, with remarks strewn into
it. In the header, where runs of newlines are shortened, a remark stands in front of a procedure; in
the main function it may stand anywhere, since only the ends of the program are trimmed.
-/
namespace BlockSynth.Zig

open Chars

variable {config : Config}

/-! ### Code of nodes -/

theorem IsIndent.isBlank {mark : List Char} (h : IsIndent mark) :
    ∀ c ∈ mark, Chars.isBlank c = true := by
  intro c hc
  rcases h c hc with rfl | rfl
  · decide
  · decide

theorem prefixLines_eq_empty_iff {mark text : String} :
    Text.prefixLines mark text = "" ↔ text = "" := by
  constructor
  · intro h
    rw [Text.prefixLines, String.ofList_eq_empty_iff] at h
    cases htext : text.toList with
    | nil => exact String.toList_eq_nil_iff.mp htext
    | cons c rest =>
      obtain ⟨tail, htail⟩ := exists_prefixLines_cons mark.toList c rest
      rw [htext, htail] at h
      simp at h
  · rintro rfl
    exact prefixLines_empty mark

theorem chain_prefixLines (hindent : IsIndent config.indentUnit.toList)
    {code bare : String} (h : commented.chain code bare) :
    commented.chain (Text.prefixLines config.indentUnit code)
      (Text.prefixLines config.indentUnit bare) := by
  constructor
  · rw [Text.prefixLines, Text.prefixLines, String.toList_ofList, String.toList_ofList]
    exact h.1.prefixLines hindent.newline_not_mem hindent.isBlank
  · rw [prefixLines_eq_empty_iff, prefixLines_eq_empty_iff]
    exact h.2

/-- A statement may have its comments in front of it. -/
theorem chain_comments (node : Node) {code bare : String} (h : commented.statement code bare) :
    commented.chain (node.comments commentMark ++ code) bare := by
  refine ⟨?_, fun hnil => absurd hnil h.2⟩
  rw [String.toList_append]
  exact h.1.remarks (remarks_comments node) (.inl rfl)

theorem comments_setting_silenced (node : Node) : (setting config).comments node.silenced = "" :=
  node.comments_silenced commentMark

theorem commented_suits (hindent : IsIndent config.indentUnit.toList) (h : Uninjected config) :
    commented.Suits (setting config) where
  chain_nil := ⟨.nil fun _ => rfl, fun _ => rfl⟩
  chain_append hcode hmore := by
    refine ⟨strewn_texts hcode.1 hmore.1, fun hnil => ?_⟩
    obtain ⟨hbare, hplain⟩ := String.append_eq_empty_iff.mp hnil
    rw [hcode.2 hbare, hmore.2 hplain, String.empty_append]
  chain_empty hcode := by
    refine ⟨fun hnil => ?_, hcode.2⟩
    have hstrewn := hcode.1
    rw [hnil] at hstrewn
    exact String.toList_eq_nil_iff.mp hstrewn.eq_nil
  lines hcode := chain_prefixLines hindent hcode
  loopBody id hcode := by
    show commented.chain (config.trapLoop quotes _ id) (config.trapLoop quotes _ id)
    rw [h.trapLoop_eq, h.trapLoop_eq]
    exact chain_prefixLines hindent hcode
  statement node selfInjecting hcode := by
    intro injected
    have hinjected : ∀ code, injected code = code := by
      intro code
      show (if selfInjecting then code
        else config.before quotes node.id ++ code ++ config.after quotes node.id) = code
      rw [h.before_eq, h.after_eq, String.empty_append, String.append_empty, ite_self]
    rw [hinjected, hinjected, comments_setting_silenced, String.empty_append]
    exact chain_comments node hcode
  naked node code hne := by
    intro line
    have hline : ∀ comments, line comments = comments ++ s!"_ = {code};\n" := by
      intro comments
      show comments ++ config.before quotes node.id ++ s!"_ = {code};\n" ++ config.after
        quotes node.id = _
      rw [h.before_eq, h.after_eq, String.append_empty, String.append_empty]
    have hended : Finished s!"_ = {code};\n" := by simp
    rw [hline, hline, comments_setting_silenced, String.empty_append]
    exact chain_comments node hended.statement
  definition text := strewn_newline false text.toList
  emitter kind emitter hfind := by
    rw [catalog_setting] at hfind
    exact (keepsPace_catalog h).find? hfind

/-! ### The header -/

/-- Definitions with the same breaks between them; each is followed by a newline, and
by what more there is. -/
theorem strewn_join {extra : String} (hextra : Strewn false false extra.toList extra.toList)
    {texts bares : List String} (h : List.Forall₂ commented.definition texts bares) :
    Strewn false false ((Text.join ("\n" ++ extra) texts).toList ++ ['\n'])
      ((Text.join ("\n" ++ extra) bares).toList ++ ['\n']) := by
  induction h with
  | nil => exact strewn_newline false []
  | @cons text bare rest rest' htext hrest ih =>
    cases hrest with
    | nil => exact htext
    | cons hnext hmore =>
      have hwhole := (htext.append hextra).append ih
      simpa [Text.join] using hwhole

/-- Imports, and the other definitions behind a blank line. -/
def headerLines (imports others : List String) : String :=
  Text.join "\n" imports ++ if others.isEmpty then "" else "\n\n" ++ Text.join "\n\n" others

/-- What stands before the body, up to the opening brace of the main function. -/
def preamble (imports others : List String) : String :=
  (if header imports others = "" then "" else header imports others ++ "\n\n\n") ++
    "pub fn main() !void \x7b\n"

theorem assemble_eq (config : Config) (imports others : List String) (body : String) :
    assemble config imports others body =
      preamble imports others ++ Text.prefixLines config.indentUnit body ++ "\x7d" := by
  have hopen : "pub fn main() !void" ++ " \x7b\n" = "pub fn main() !void \x7b\n" := rfl
  unfold assemble preamble
  show _ ++
    ("pub fn main() !void" ++ " \x7b\n" ++ Text.prefixLines config.indentUnit body ++ "\x7d") = _
  rw [hopen]
  simp only [String.append_assoc]

section Definitions

variable {imports others imports' others' : List String}
    (himports : List.Forall₂ commented.definition imports imports')
  (hothers : List.Forall₂ commented.definition others others')
include himports hothers

theorem strewn_headerLines :
    Strewn false false ((headerLines imports others).toList ++ ['\n'])
      ((headerLines imports' others').toList ++ ['\n']) := by
  have hbreak : Strewn false false "\n".toList "\n".toList := strewn_newline false []
  have hfirst : Strewn false false ((Text.join "\n" imports).toList ++ ['\n'])
      ((Text.join "\n" imports').toList ++ ['\n']) := @strewn_join "" (.nil id) _ _ himports
  have hsecond : Strewn false false ((Text.join "\n\n" others).toList ++ ['\n'])
      ((Text.join "\n\n" others').toList ++ ['\n']) := @strewn_join "\n" hbreak _ _ hothers
  unfold headerLines
  cases hothers with
  | nil => simpa using hfirst
  | cons _ _ => simpa using (hfirst.append hbreak).append hsecond

theorem strewn_header :
    (header imports others = "" ↔ header imports' others' = "") ∧ (header imports others ≠ "" →
      Strewn false false ((header imports others).toList ++ ['\n'])
        ((header imports' others').toList ++ ['\n'])) := by
  have hheader : ∀ imports others, (header imports others).toList =
      trimNewlines (collapseBlankLines (headerLines imports others).toList) := by
    intro imports others
    show (Text.trimNewlines (Text.collapseBlankLines (headerLines imports others))).toList = _
    rw [Text.trimNewlines, Text.collapseBlankLines, String.toList_ofList, String.toList_ofList]
  have hlines := (strewn_headerLines himports hothers).trimNewlines_collapse
  rw [← hheader, ← hheader] at hlines
  simpa only [Ne, String.toList_eq_nil_iff] using hlines

theorem strewn_preamble :
    Strewn false true (preamble imports others).toList (preamble imports' others').toList := by
  obtain ⟨hiff, hstrewn⟩ := strewn_header himports hothers
  have hmain : Strewn false true "pub fn main() !void \x7b\n".toList
      "pub fn main() !void \x7b\n".toList :=
    strewn_solid false "pub fn main() !void ".toList (show isBlank '\x7b' = false by decide)
  unfold preamble
  refine strewn_texts ?_ hmain
  by_cases hnil : header imports others = ""
  · rw [if_pos hnil, if_pos (hiff.mp hnil)]
    exact .nil id
  · rw [if_neg hnil, if_neg fun hnil' => hnil (hiff.mpr hnil')]
    have hbreaks : Strewn false false ['\n', '\n'] ['\n', '\n'] := strewn_newline false ['\n']
    simpa using (hstrewn hnil).append hbreaks

end Definitions

/-! ### The body -/

theorem scattered_join {codes bares : List String} (h : List.Forall₂ commented.chain codes bares) :
    Scattered (Text.join "\n" codes).toList (Text.join "\n" bares).toList := by
  induction h with
  | nil =>
    have hnil : Strewn true true [] [] := .nil id
    exact hnil.scattered
  | @cons code bare rest rest' hcode hrest ih =>
    cases hrest with
    | nil => exact hcode.1.scattered
    | cons hnext hmore =>
      have hwhole := (hcode.1.scattered.append (scattered_newline [])).append ih
      simpa [Text.join] using hwhole

theorem withoutRemarks_assemble (hindent : IsIndent config.indentUnit.toList)
    {imports others imports' others' codes bares : List String}
    (himports : List.Forall₂ commented.definition imports imports')
    (hothers : List.Forall₂ commented.definition others others')
    (hcodes : List.Forall₂ commented.chain codes bares) :
    withoutRemarks (Text.tidy (assemble config imports others (Text.join "\n" codes))).toList =
      withoutRemarks
        (Text.tidy (assemble config imports' others' (Text.join "\n" bares))).toList := by
  have hbody := (scattered_join hcodes).prefixLines hindent.newline_not_mem hindent.isBlank
  have hlast : '\n' ∉ ['\x7d'] := by decide
  have hsolid : isSolid ['\x7d'] = true := by decide
  have hspelled : ∀ imports others codes,
      (Text.tidy (assemble config imports others (Text.join "\n" codes))).toList =
      tidy ((preamble imports others).toList ++
        prefixLines config.indentUnit.toList (Text.join "\n" codes).toList ++ ['\x7d']) := by
    intro imports others codes
    rw [Text.tidy, String.toList_ofList, assemble_eq, String.toList_append, String.toList_append,
      Text.prefixLines, String.toList_ofList]
    rfl
  rw [hspelled, hspelled]
  exact withoutRemarks_tidy (strewn_preamble himports hothers) hbody hlast hsolid

/-! ### Programs -/

theorem definedName_silenced (root : Node) : definedName root.silenced = definedName root := by
  simp only [definedName, Node.silenced_kind, Node.silenced_fieldText]

theorem opening_silenced (workspace : Workspace) :
    opening workspace.silenced = opening workspace := by
  have hnames : workspace.silenced.roots.filterMap definedName =
      workspace.roots.filterMap definedName := by
    rw [Workspace.silenced, List.filterMap_map]
    exact congrArg (workspace.roots.filterMap ·) (funext definedName_silenced)
  funext ledger
  unfold opening
  rw [hnames]
  rfl

/-- The program of a workspace beside that of the workspace without comments. -/
theorem generate_silenced (hindent : IsIndent config.indentUnit.toList) (h : Uninjected config)
    (workspace : Workspace) :
    match (setting config).generate workspace, (setting config).generate workspace.silenced with
    | .ok program, .ok bare => withoutRemarks program.toList = withoutRemarks bare.toList
    | .error fault, .error fault' => fault = fault'
    | _, _ => False := by
  have hsuits := commented_suits hindent h
  have hopened : (setting config).openProgram workspace.silenced (setting config).session =
      (setting config).openProgram workspace (setting config).session := by
    have hopening : (setting config).target.opening = opening := rfl
    unfold Setting.openProgram
    rw [hopening, opening_silenced]
  have hroots : workspace.silenced.roots = workspace.roots.map Node.silenced := rfl
  -- Both runs start in the same session, so they stay abreast.
  have hruns := hsuits.renderRoots workspace.roots _ _
    (hsuits.sessions_self ((setting config).openProgram workspace (setting config).session))
  unfold Setting.generate
  rw [hopened, hroots]
  cases hrun : (setting config).renderRoots workspace.roots
      ((setting config).openProgram workspace (setting config).session) with
  | ok codes session =>
    cases hother : (setting config).renderRoots (workspace.roots.map Node.silenced)
        ((setting config).openProgram workspace (setting config).session) with
    | ok bares session' =>
      rw [hrun, hother] at hruns
      have hentries := hruns.2.entries
      exact withoutRemarks_assemble hindent (hentries.texts DefinitionKey.isImport)
        (hentries.texts fun key => !key.isImport) hruns.1
    | error fault' stopped' =>
      rw [hrun, hother] at hruns
      exact hruns
  | error fault stopped =>
    cases hother : (setting config).renderRoots (workspace.roots.map Node.silenced)
        ((setting config).openProgram workspace (setting config).session) with
    | ok bares session' =>
      rw [hrun, hother] at hruns
      exact hruns
    | error fault' stopped' =>
      rw [hrun, hother] at hruns
      exact hruns.1

/-- Comments change no code: a program comes out of a workspace exactly if one comes out without its
comments, and the two are the same up to lines that are comments. -/
theorem comments_change_no_code (hindent : IsIndent config.indentUnit.toList)
    (h : Uninjected config) (workspace : Workspace) :
    ((∃ program, (setting config).generate workspace = .ok program) ↔
      ∃ bare, (setting config).generate workspace.silenced = .ok bare) ∧
    ∀ program bare, (setting config).generate workspace = .ok program →
      (setting config).generate workspace.silenced = .ok bare →
      withoutRemarks program.toList = withoutRemarks bare.toList := by
  have hboth := generate_silenced hindent h workspace
  revert hboth
  cases (setting config).generate workspace with
  | ok program =>
    cases (setting config).generate workspace.silenced with
    | ok bare => simp
    | error fault' => exact False.elim
  | error fault =>
    cases (setting config).generate workspace.silenced with
    | ok bare => exact False.elim
    | error fault' => simp

/-- Comments of several lines on a procedure and on a text in the main function that
looks like one. -/
theorem commented_procedure_and_text_are_the_same_code :
    let define : Node :=
      { kind := "procedures_defreturn", fields := [("NAME", .text "greet")],
        comment := some "Says\n\nhello" }
    let shout : Node :=
      { kind := "text", fields := [("TEXT", .text "\n// hi")], comment := some "// once\n" }
    ∃ program bare, (setting {}).generate ⟨[], [define, shout]⟩ = .ok program ∧
      (setting {}).generate ⟨[], [define.silenced, shout.silenced]⟩ = .ok bare ∧
      withoutRemarks program.toList = withoutRemarks bare.toList := by
  intro define shout
  have hdefined : ∀ session, ∃ next,
      (define.offer (setting {})).emission session = .ok .nothing next := by
    intro session
    have hfind : catalog.find? "procedures_defreturn" = some ⟨defineProcedure, true⟩ :=
      (find?_catalog (by decide)).trans rfl
    rw [@emission_of_kind {} define "procedures_defreturn" _ rfl hfind]
    exact ⟨_, rfl⟩
  have hshouted : ∀ session, ∃ code rank,
      (shout.offer (setting {})).emission session = .ok (.value code rank) session := by
    intro session
    have hfind : catalog.find? "text" = some ⟨textLiteral, false⟩ :=
      (find?_catalog (by decide)).trans rfl
    rw [@emission_of_kind {} shout "text" _ rfl hfind]
    exact ⟨_, _, rfl⟩
  obtain ⟨program, hprogram⟩ : ∃ program,
      (setting {}).generate ⟨[], [define, shout]⟩ = .ok program := by
    obtain ⟨next, hnothing⟩ :=
      hdefined ((setting {}).openProgram ⟨[], [define, shout]⟩ (setting {}).session)
    obtain ⟨code, rank, hvalue⟩ := hshouted next
    have htext := renderRoot_of_value hvalue rfl
    have hrest : (setting {}).renderRoots [shout] next = .ok _ next := renderRoots_cons htext rfl
    have hroots := renderRoots_cons (renderRoot_of_nothing hnothing rfl rfl) hrest
    exact ⟨_, generate_of_roots hroots⟩
  have hindent : IsIndent ({} : Config).indentUnit.toList := by decide
  obtain ⟨hiff, hsame⟩ := @comments_change_no_code {} hindent ⟨rfl, rfl, rfl⟩ ⟨[], [define, shout]⟩
  obtain ⟨bare, hbare⟩ := hiff.mp ⟨program, hprogram⟩
  exact ⟨program, bare, hprogram, hbare, hsame program bare hprogram hbare⟩

end BlockSynth.Zig
