import BlockSynth.Command.Run
import BlockSynth.Proofs.Culprit
import BlockSynth.Proofs.Dispatch
import BlockSynth.Proofs.Zig.Likeness

/-! # Faults of the Zig target

The emitters of the catalog see a node through its fields, and every fault of theirs
is about one of these. A kind without an emitter is found by looking at the workspace
alone, so no checked workspace fails for want of one.
-/
namespace BlockSynth.Zig

open Command

/-! ### Emitters -/

/-- The same fault, if it is about an option of the node. -/
def blaming (node : Node) : Fault → Fault
  | .unhandledOption _ _ field _ => .ofOption node field
  | _ => .ofOption node ""

theorem likeness_blaming (config : Config) (node : Node) :
    Likeness (blaming node) id config node node where
  kind := rfl
  fields := rfl
  mutation := rfl
  before := rfl
  after := rfl
  trap := rfl
  comments := rfl
  fault _ := rfl
  replay _ := rfl
  otherwise := rfl
  times _ := rfl
  text _ := rfl
  result _ _ := rfl

/-- The script of a node stays the same if all its faults are turned into ones about
options of the node, so it raises no others. -/
theorem setting_selfBlaming (config : Config) : (setting config).SelfBlaming := by
  intro node emitter hfind
  rw [catalog_setting] at hfind
  have hscript : emitter.script config node =
      (emitter.script config node).recast (blaming node) id :=
    (likeness_blaming config node).script hfind
  have hblaming : ∀ fault, ∃ field, blaming node fault = .ofOption node field := by
    intro fault
    cases fault with
    | unhandledOption kind id field value => exact ⟨field, rfl⟩
    | unhandledKind kind id => exact ⟨"", rfl⟩
    | wrongShape kind id expected => exact ⟨"", rfl⟩
  show (emitter.script config node).Faults _
  rw [hscript]
  exact Script.faults_recast hblaming id _

/-! ### Checking -/

variable {workspace : Workspace}

theorem mem_unknownKinds {kind : String} :
    kind ∈ unknownKinds workspace ↔
    kind ∈ workspace.nodes.map Node.kind ∧ catalog.find? kind = none := by
  unfold unknownKinds
  rw [Keyed.mem_names_foldl_insert]
  simp [Catalog.contains]

theorem check_of_loadGraph {read : ReadFile} {path : String}
    (h : loadGraph read path = .ok workspace) (hunknown : unknownKinds workspace ≠ []) :
    check read path =
      .failure
        (path ++ ": unsupported node kinds: " ++ Text.join ", " (unknownKinds workspace)) := by
  unfold check
  rw [h]
  dsimp only
  rw [if_neg (by simpa using hunknown)]

/-- Where no program comes out, an enabled node of the workspace is to blame, with the
kind and id of the fault: its kind is unknown, its field holds what the fault says, or
it stands in a place of the other shape. What is blamed for its kind is listed by a
check, and a workspace that has been checked is never blamed so. -/
theorem faults_name_their_culprits (config : Config) (workspace : Workspace) :
    (∀ fault, (setting config).generate workspace = .error fault →
      ∃ node ∈ workspace.nodes,
        node.disabled = false ∧ Culprit (setting config) workspace node fault) ∧
    (∀ kind id, (setting config).generate workspace = .error (.unhandledKind kind id) →
      kind ∈ unknownKinds workspace ∧ ∀ read path,
        loadGraph read path = .ok workspace → check read path =
        .failure (path ++ ": unsupported node kinds: " ++
          Text.join ", " (unknownKinds workspace))) ∧
    ∀ read path, loadGraph read path = .ok workspace → (check read path).exit = 0 →
      ∀ kind id, (setting config).generate workspace ≠ .error (.unhandledKind kind id) := by
  have hblames : ∀ fault, (setting config).generate workspace = .error fault →
      (setting config).Blames workspace fault :=
    fun fault h => blames_of_generate (setting_selfBlaming config) h
  have hlisted : ∀ kind id, (setting config).generate workspace = .error (.unhandledKind kind id) →
      kind ∈ unknownKinds workspace := by
    intro kind id h
    obtain ⟨node, hnode, -, hculprit⟩ := hblames _ h
    cases hculprit with
    | kind hfind =>
      rw [catalog_setting] at hfind
      exact mem_unknownKinds.mpr ⟨List.mem_map_of_mem hnode, hfind⟩
  refine ⟨hblames, fun kind id h => ⟨hlisted kind id h, fun read path hload => ?_⟩, ?_⟩
  · exact check_of_loadGraph hload (List.ne_nil_of_mem (hlisted kind id h))
  · intro read path hload hexit kind id h
    rw [check_of_loadGraph hload (List.ne_nil_of_mem (hlisted kind id h))] at hexit
    exact absurd hexit Nat.one_ne_zero

/-- A print whose message is of an unknown kind, read from its document, and the
document without nodes. -/
theorem mysterious_message_is_blamed :
    let mystery : Node := { id := "n2", kind := "mystery" }
    let shout : Node := { id := "n1", kind := "text_print", inputs := [("TEXT", mystery)] }
    let workspace : Workspace := ⟨[], [shout]⟩
    let read : ReadFile := fun _ => .ok
      "\x7b\"roots\":[\x7b\"kind\":\"text_print\",\"inputs\":\x7b\"TEXT\":\x7b\"kind\":\"mystery\"\x7d\x7d\x7d]\x7d"
    (setting {}).generate workspace = .error (.unhandledKind "mystery" "n2") ∧
    (∃ node ∈ workspace.nodes, node.disabled = false ∧
      Culprit (setting {}) workspace node (.unhandledKind "mystery" "n2")) ∧
    check read "graph" = .failure "graph: unsupported node kinds: mystery" ∧
    (check (fun _ => .ok "\x7b\x7d") "graph").exit = 0 ∧
    ∀ kind id, (setting {}).generate ⟨[], []⟩ ≠ .error (.unhandledKind kind id) := by
  have hload : loadGraph (fun _ => .ok
      "\x7b\"roots\":[\x7b\"kind\":\"text_print\",\"inputs\":\x7b\"TEXT\":\x7b\"kind\":\"mystery\"\x7d\x7d\x7d]\x7d")
      "graph" = .ok ⟨[], [{ id := "n1", kind := "text_print"
                            inputs := [("TEXT", { id := "n2", kind := "mystery" })] }]⟩ := by
    cbv
  have hempty : loadGraph (fun _ => .ok "\x7b\x7d") "graph" = .ok ⟨[], []⟩ := by cbv
  have haccepted : (check (fun _ => .ok "\x7b\x7d") "graph").exit = 0 := by
    unfold check
    rw [hempty]
    rfl
  have hshout : catalog.find? "text_print" = some ⟨print, false⟩ :=
    (find?_catalog (by decide)).trans rfl
  have hmystery : catalog.find? "mystery" = none := (find?_catalog (by decide)).trans rfl
  intro mystery shout workspace read
  have hunknown : unknownKinds workspace = ["mystery"] := by
    have hkinds : workspace.nodes.map Node.kind = ["text_print", "mystery"] := rfl
    have hknown : catalog.contains "text_print" = true := by
      unfold Catalog.contains
      rw [hshout]
      rfl
    have hstrange : catalog.contains "mystery" = false := by
      unfold Catalog.contains
      rw [hmystery]
      rfl
    simp [unknownKinds, hkinds, hknown, hstrange, Keyed.insert]
  have hemission : ∀ session, (mystery.offer (setting {})).emission session =
      .error (.unhandledKind "mystery" "n2") session := by
    intro session
    rw [emission_of_unknown (by rw [catalog_setting]; exact hmystery)]
    rfl
  have hreaches : Reaches (setting {}) .statement shout
      ((setting {}).openProgram workspace (setting {}).session)
        [⟨shout, .input "TEXT"⟩] mystery _ :=
    .slot .statement rfl (by rw [catalog_setting]; exact hshout) (.now _ rfl) rfl
      (.here .value _ rfl)
  have hgenerate : (setting {}).generate workspace = .error (.unhandledKind "mystery" "n2") :=
    @Reaches.generate_fails _ _ [] [] _ _ _ _ _ _ _ _ hreaches rfl rfl (hemission _)
  obtain ⟨hculprit, hrejected, -⟩ := faults_name_their_culprits {} workspace
  obtain ⟨-, -, hnever⟩ := faults_name_their_culprits {} ⟨[], []⟩
  have hcheck := (hrejected _ _ hgenerate).2 read "graph" hload
  rw [hunknown] at hcheck
  exact ⟨hgenerate, hculprit _ hgenerate, hcheck, haccepted, hnever _ _ hempty haccepted⟩

end BlockSynth.Zig
