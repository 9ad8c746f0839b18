import BlockSynth.Program.Definitions
import Mathlib.Data.List.Nodup

/-! # What a definition changes

A definition that is given again keeps its place and any other is put at the end, so no key ever
stands twice, and an entry is touched by nothing but a definition under its own key.
-/
namespace BlockSynth

def DefinitionKey.isHelper : DefinitionKey → Bool
  | .helper _ => true
  | _ => false

namespace Definitions

def keys (definitions : Definitions) : List DefinitionKey :=
  definitions.entries.map Prod.fst

variable {definitions : Definitions} {key : DefinitionKey} {text : String}

theorem contains_iff : definitions.contains key = true ↔ key ∈ definitions.keys := by
  simp [contains, keys]

theorem mem_keys {entry : DefinitionKey × String} (h : entry ∈ definitions.entries) :
    entry.1 ∈ definitions.keys :=
  List.mem_map_of_mem h

theorem keys_insert (definitions : Definitions) (key : DefinitionKey) (text : String) :
    (definitions.insert key text).keys =
      if key ∈ definitions.keys then definitions.keys else definitions.keys ++ [key] := by
  obtain ⟨entries⟩ := definitions
  show (insertEntry key text entries).map Prod.fst = _
  simp only [keys]
  induction entries with
  | nil => simp [insertEntry]
  | cons entry rest ih =>
    unfold insertEntry
    by_cases heq : entry.1 = key
    · simp [heq]
    · rw [if_neg heq, List.map_cons, ih]
      by_cases hmem : key ∈ rest.map Prod.fst
      · simp [hmem]
      · simp [hmem, Ne.symm heq]

theorem mem_insert (definitions : Definitions) (key : DefinitionKey) (text : String) :
    (key, text) ∈ (definitions.insert key text).entries := by
  obtain ⟨entries⟩ := definitions
  show (key, text) ∈ insertEntry key text entries
  induction entries with
  | nil => exact List.mem_singleton_self _
  | cons first rest ih =>
    unfold insertEntry
    split
    · exact List.mem_cons_self
    · exact List.mem_cons_of_mem _ ih

theorem mem_of_mem_insert {entry : DefinitionKey × String}
    (h : entry ∈ (definitions.insert key text).entries) :
    entry ∈ definitions.entries ∨ entry = (key, text) := by
  obtain ⟨entries⟩ := definitions
  replace h : entry ∈ insertEntry key text entries := h
  show entry ∈ entries ∨ entry = (key, text)
  induction entries with
  | nil => exact .inr (List.mem_singleton.mp h)
  | cons first rest ih =>
    unfold insertEntry at h
    split at h
    · rcases List.mem_cons.mp h with rfl | hrest
      · exact .inr rfl
      · exact .inl (List.mem_cons_of_mem _ hrest)
    · rcases List.mem_cons.mp h with rfl | hrest
      · exact .inl List.mem_cons_self
      · exact (ih hrest).imp_left (List.mem_cons_of_mem _)

theorem mem_keys_insert {other : DefinitionKey} :
    other ∈ (definitions.insert key text).keys ↔ other ∈ definitions.keys ∨ other = key := by
  rw [keys_insert]
  split
  · constructor
    · exact .inl
    · rintro (hmem | rfl)
      · exact hmem
      · assumption
  · simp

theorem nodup_keys_insert (h : definitions.keys.Nodup) :
    (definitions.insert key text).keys.Nodup := by
  rw [keys_insert]
  split
  · exact h
  · rename_i hnew
    exact List.nodup_append.mpr ⟨h, List.nodup_singleton key, by
      rintro other hother _ hkey rfl
      exact hnew (List.mem_singleton.mp hkey ▸ hother)⟩

/-- What belongs to other keys is not touched. -/
theorem filter_insert_of_not (keep : DefinitionKey → Bool) (hkey : keep key = false) :
    (definitions.insert key text).entries.filter (keep ·.1) =
      definitions.entries.filter (keep ·.1) := by
  obtain ⟨entries⟩ := definitions
  show (insertEntry key text entries).filter (keep ·.1) = entries.filter (keep ·.1)
  induction entries with
  | nil => simp [insertEntry, hkey]
  | cons entry rest ih =>
    unfold insertEntry
    by_cases heq : entry.1 = key
    · simp [heq, hkey]
    · simp [heq, List.filter_cons, ih]

theorem mem_insert_of_ne {entry : DefinitionKey × String}
    (h : entry ∈ definitions.entries) (hne : entry.1 ≠ key) :
    entry ∈ (definitions.insert key text).entries := by
  have hfilter := @filter_insert_of_not definitions key text (· != key) (by simp)
  have hmem : entry ∈ definitions.entries.filter (·.1 != key) :=
    List.mem_filter.mpr ⟨h, by simpa using hne⟩
  rw [← hfilter] at hmem
  exact List.mem_of_mem_filter hmem

theorem insert_of_not_mem (h : key ∉ definitions.keys) :
    (definitions.insert key text).entries = definitions.entries ++ [(key, text)] := by
  obtain ⟨entries⟩ := definitions
  show insertEntry key text entries = entries ++ [(key, text)]
  simp only [keys] at h
  induction entries with
  | nil => rfl
  | cons entry rest ih =>
    rw [List.map_cons, List.mem_cons, not_or] at h
    rw [insertEntry, if_neg (Ne.symm h.1), ih h.2, List.cons_append]

theorem insertIfAbsent_cases (definitions : Definitions) (key : DefinitionKey) (text : String) :
    key ∈ definitions.keys ∧ (definitions.insertIfAbsent key text).2 = definitions ∨
      key ∉ definitions.keys ∧
      (definitions.insertIfAbsent key text).2 = definitions.insert key text := by
  unfold insertIfAbsent
  split
  · rename_i hcontains
    exact .inl ⟨contains_iff.mp hcontains, rfl⟩
  · rename_i hcontains
    exact .inr ⟨fun hmem => hcontains (contains_iff.mpr hmem), rfl⟩

end Definitions

end BlockSynth
