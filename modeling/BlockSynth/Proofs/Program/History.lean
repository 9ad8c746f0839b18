import BlockSynth.Proofs.Catalog
import BlockSynth.Proofs.Program.Definitions
import BlockSynth.Render
import Mathlib.Data.List.Induction

/-! # What is left of a history of definitions

Definitions are given one after the other, some of them only if there is none under their key yet.
What is there in the end can be told from the calls alone: the keys in the order in which they first
came up, and under each the text that was last insisted on, or else the first one that was offered.
-/
namespace BlockSynth.Definitions

inductive Call
  | insert (key : DefinitionKey) (text : String)
  | insertIfAbsent (key : DefinitionKey) (text : String)
  deriving DecidableEq, Repr

def Call.key : Call → DefinitionKey
  | insert key _ => key
  | insertIfAbsent key _ => key

/-- The text that a call puts under a key whatever is there. -/
def Call.insisted? (key : DefinitionKey) : Call → Option String
  | insert other text => if other = key then some text else none
  | insertIfAbsent _ _ => none

/-- The text that a call puts under a key if there is none. -/
def Call.offered? (key : DefinitionKey) : Call → Option String
  | insert _ _ => none
  | insertIfAbsent other text => if other = key then some text else none

def perform (definitions : Definitions) : Call → Definitions
  | .insert key text => definitions.insert key text
  | .insertIfAbsent key text => (definitions.insertIfAbsent key text).2

/-- The definitions after a run of calls, with none to begin with. -/
def after (calls : List Call) : Definitions :=
  calls.foldl perform {}

/-- The text that calls leave under a key: the last one that was inserted, or the
first one that was offered. -/
def settledText (calls : List Call) (key : DefinitionKey) : Option String :=
  (calls.filterMap (Call.insisted? key)).getLast?.or (calls.filterMap (Call.offered? key)).head?

/-- The keys of calls, in the order in which they first come up. -/
def settledKeys (calls : List Call) : List DefinitionKey :=
  (calls.map Call.key).eraseDups

/-- The texts that calls leave under the keys of some kind. -/
def settledTexts (calls : List Call) (kind : DefinitionKey → Bool) : List String :=
  ((settledKeys calls).filter kind).filterMap (settledText calls)

variable {definitions : Definitions} {calls : List Call} {key : DefinitionKey} {text : String}

/-! ### Steps -/

theorem perform_insertIfAbsent_of_mem (h : key ∈ definitions.keys) :
    definitions.perform (.insertIfAbsent key text) = definitions := by
  rcases definitions.insertIfAbsent_cases key text with ⟨-, heq⟩ | ⟨hnew, -⟩
  · exact heq
  · exact absurd h hnew

theorem perform_insertIfAbsent_of_not_mem (h : key ∉ definitions.keys) :
    definitions.perform (.insertIfAbsent key text) = definitions.insert key text := by
  rcases definitions.insertIfAbsent_cases key text with ⟨hold, -⟩ | ⟨-, heq⟩
  · exact absurd hold h
  · exact heq

theorem added_iff : (definitions.insertIfAbsent key text).1 = true ↔ key ∉ definitions.keys := by
  unfold insertIfAbsent
  rw [← contains_iff]
  split
  · simp_all
  · simp_all

theorem keys_perform (definitions : Definitions) (call : Call) :
    (definitions.perform call).keys =
      if call.key ∈ definitions.keys then definitions.keys else definitions.keys ++ [call.key] := by
  cases call with
  | insert key text => exact keys_insert definitions key text
  | insertIfAbsent key text =>
    show _ = if key ∈ definitions.keys then definitions.keys else definitions.keys ++ [key]
    by_cases hmem : key ∈ definitions.keys
    · rw [perform_insertIfAbsent_of_mem hmem, if_pos hmem]
    · rw [perform_insertIfAbsent_of_not_mem hmem, keys_insert]

theorem get?_insert (definitions : Definitions) (key other : DefinitionKey) (text : String) :
    (definitions.insert key text).get? other = if key = other then some text
      else definitions.get? other := by
  obtain ⟨entries⟩ := definitions
  show (insertEntry key text entries).lookup other = if key = other then some text
    else entries.lookup other
  induction entries with
  | nil =>
    by_cases hkey : key = other
    · simp [insertEntry, hkey]
    · simp [insertEntry, List.lookup_cons, hkey, beq_eq_false_iff_ne.mpr (Ne.symm hkey)]
  | cons entry rest ih =>
    unfold insertEntry
    by_cases hentry : entry.1 = key
    · rw [if_pos hentry, List.lookup_cons, List.lookup_cons, hentry]
      by_cases hkey : key = other
      · simp [hkey]
      · simp [hkey, beq_eq_false_iff_ne.mpr (Ne.symm hkey)]
    · rw [if_neg hentry, List.lookup_cons, List.lookup_cons, ih]
      by_cases hkey : key = other
      · subst hkey
        simp [beq_eq_false_iff_ne.mpr (Ne.symm hentry)]
      · simp [hkey]

theorem get?_eq_none_iff : definitions.get? key = none ↔ key ∉ definitions.keys := by
  rw [keys, get?, List.lookup_eq_none_iff]
  simp only [List.mem_map, not_exists, not_and, bne_iff_ne]
  exact forall₂_congr fun _ _ => ne_comm

/-! ### Runs -/

theorem after_concat (calls : List Call) (call : Call) :
    after (calls ++ [call]) = (after calls).perform call := by
  simp [after]

theorem keys_after (calls : List Call) : (after calls).keys = settledKeys calls := by
  induction calls using List.reverseRecOn with
  | nil => rfl
  | append_singleton calls call ih =>
    have hmem : call.key ∈ (after calls).keys ↔ call.key ∈ calls.map Call.key := by
      rw [ih, settledKeys, List.mem_eraseDups]
    rw [after_concat, keys_perform, settledKeys, List.map_append, List.map_singleton,
      List.eraseDups_append, ← settledKeys, ← ih, List.removeAll]
    by_cases hold : call.key ∈ calls.map Call.key
    · rw [if_pos (hmem.mpr hold), List.filter_cons_of_neg (by simpa using hold)]
      simp
    · rw [if_neg (hmem.not.mpr hold), List.filter_cons_of_pos (by simpa using hold)]
      simp [List.eraseDups_cons]

theorem mem_keys_after : key ∈ (after calls).keys ↔ key ∈ calls.map Call.key := by
  rw [keys_after, settledKeys, List.mem_eraseDups]

theorem nodup_keys_after (calls : List Call) : (after calls).keys.Nodup := by
  induction calls using List.reverseRecOn with
  | nil => exact List.nodup_nil
  | append_singleton calls call ih =>
    rw [after_concat, keys_perform]
    split
    · exact ih
    · rename_i hnew
      exact List.nodup_append_comm.mp (List.nodup_cons.mpr ⟨hnew, ih⟩)

theorem settledText_insert (calls : List Call) (key other : DefinitionKey) (text : String) :
    settledText (calls ++ [.insert other text]) key = if other = key then some text
      else settledText calls key := by
  by_cases hkey : other = key
  · simp [settledText, Call.insisted?, hkey]
  · simp [settledText, Call.insisted?, Call.offered?, hkey]

theorem settledText_insertIfAbsent (calls : List Call) (key other : DefinitionKey) (text : String) :
    settledText (calls ++ [.insertIfAbsent other text]) key =
      if other = key then (settledText calls key).or (some text) else settledText calls key := by
  by_cases hkey : other = key
  · simp [settledText, Call.insisted?, Call.offered?, hkey, List.head?_append]
  · simp [settledText, Call.insisted?, Call.offered?, hkey]

theorem get?_after (calls : List Call) (key : DefinitionKey) :
    (after calls).get? key = settledText calls key := by
  induction calls using List.reverseRecOn with
  | nil => rfl
  | append_singleton calls call ih =>
    rw [after_concat]
    cases call with
    | insert other text =>
      show ((after calls).insert other text).get? key = _
      rw [get?_insert, settledText_insert, ih]
    | insertIfAbsent other text =>
      rw [settledText_insertIfAbsent, ← ih]
      by_cases hmem : other ∈ (after calls).keys
      · rw [perform_insertIfAbsent_of_mem hmem]
        split
        · rename_i hkey
          obtain ⟨found, hfound⟩ :=
            Option.ne_none_iff_exists'.mp fun hnone => get?_eq_none_iff.mp hnone (hkey ▸ hmem)
          rw [hfound, Option.some_or]
        · rfl
      · rw [perform_insertIfAbsent_of_not_mem hmem, get?_insert]
        split
        · rename_i hkey
          rw [get?_eq_none_iff.mpr (hkey ▸ hmem), Option.none_or]
        · rfl

/-! ### What is taken out in the end -/

/-- The texts under the keys of some kind, found one by one. -/
theorem texts_of_kind (h : definitions.keys.Nodup) (kind : DefinitionKey → Bool) :
    (definitions.entries.filter (kind ·.1)).map Prod.snd =
      (definitions.keys.filter kind).filterMap definitions.get? := by
  have hfound : ∀ entry ∈ definitions.entries.filter (kind ·.1),
      definitions.get? entry.1 = some entry.2 :=
    fun entry hentry => Keyed.lookup_of_mem h (List.mem_of_mem_filter hentry)
  calc (definitions.entries.filter (kind ·.1)).map Prod.snd
      = (definitions.entries.filter (kind ·.1)).filterMap fun entry => some entry.2 := by simp
    _ = (definitions.entries.filter (kind ·.1)).filterMap fun entry => definitions.get? entry.1 :=
        (List.filterMap_congr hfound).symm
    _ = (definitions.keys.filter kind).filterMap definitions.get? := by
        rw [keys, List.filter_map, List.filterMap_map]
        rfl

theorem texts_after (calls : List Call) (kind : DefinitionKey → Bool) :
    ((after calls).entries.filter (kind ·.1)).map Prod.snd = settledTexts calls kind := by
  have hget : (after calls).get? = settledText calls := funext (get?_after calls)
  rw [texts_of_kind (nodup_keys_after calls), keys_after, hget, settledTexts]

/-- Definitions are a map in the order of insertion, in which a text is replaced where
it stands. The keys stand as they first came up, each once, and under each stands what
the calls have left there; a definition is added if absent exactly if no call before
has had its key. In the end the imports and the other definitions are taken out, both
in this order and none twice, and nothing is left. -/
theorem definitions_are_what_calls_have_left (calls : List Call) :
    let definitions := after calls
    definitions.keys = settledKeys calls ∧ definitions.keys.Nodup ∧
      (∀ key, definitions.get? key = settledText calls key) ∧
      (∀ key text, (definitions.insertIfAbsent key text).1 = true ↔ key ∉ calls.map Call.key) ∧
      definitions.imports = settledTexts calls (·.isImport) ∧
      definitions.others = settledTexts calls (!·.isImport) ∧
      (definitions.imports ++ definitions.others).Perm (settledTexts calls fun _ => true) ∧
      ∀ (setting : Setting) (body : String) (session : Session),
        setting.closeProgram body { session with definitions } =
          (setting.target.assemble setting.config definitions.imports definitions.others body,
            { session with definitions := {} }) := by
  intro definitions
  have himports : definitions.imports = settledTexts calls (·.isImport) := texts_after calls _
  have hothers : definitions.others = settledTexts calls (!·.isImport) :=
    texts_after calls (!·.isImport)
  refine ⟨keys_after calls, nodup_keys_after calls, get?_after calls, fun key text => ?_, himports,
    hothers, ?_, fun _ _ _ => rfl⟩
  · rw [added_iff, mem_keys_after]
  · rw [himports, hothers, settledTexts, settledTexts,
      settledTexts, ← List.filterMap_append, List.filter_true]
    exact (List.filter_append_perm _ _).filterMap _

/-- A text that is replaced keeps its place, be it an import with the name of a procedure. -/
example :
    let calls : List Call :=
      [.insertIfAbsent (.procedure "std") "a", .insert (.importing "std") "b",
      .insert (.procedure "std") "c", .insertIfAbsent (.importing "std") "d"]
    (after calls).entries = [(.procedure "std", "c"), (.importing "std", "b")] := by
  decide

end BlockSynth.Definitions
