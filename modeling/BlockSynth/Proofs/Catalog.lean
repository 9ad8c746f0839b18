import BlockSynth.Catalog
import Mathlib.Data.List.Nodup

/-! # What a catalog finds

Every emitter that a catalog finds has been registered under some kind, be it found under an alias.
-/
namespace BlockSynth

theorem Keyed.mem_of_lookup {κ α : Type} [BEq κ] [LawfulBEq κ] {key : κ} {value : α}
    {entries : List (κ × α)} (h : entries.lookup key = some value) : (key, value) ∈ entries := by
  obtain ⟨before, after, rfl, -⟩ := List.lookup_eq_some_iff.mp h
  exact List.mem_append_right _ List.mem_cons_self

/-- Where no key stands twice, every entry is found under its key. -/
theorem Keyed.lookup_of_mem {κ α : Type} [BEq κ] [LawfulBEq κ] {entries : List (κ × α)}
    (h : (entries.map Prod.fst).Nodup) {entry : κ × α} (hentry : entry ∈ entries) :
    entries.lookup entry.1 = some entry.2 := by
  cases hlookup : entries.lookup entry.1 with
  | none =>
    have hnone := List.lookup_eq_none_iff.mp hlookup entry hentry
    simp at hnone
  | some value =>
    have hsame := List.inj_on_of_nodup_map h hentry (mem_of_lookup hlookup) rfl
    rw [hsame]

theorem Keyed.mem_insert {α : Type} {name : String} {value : α} {entries : List (String × α)}
    {entry : String × α} (h : entry ∈ insert name value entries) :
    entry = (name, value) ∨ entry ∈ entries := by
  induction entries with
  | nil => exact .inl (List.mem_singleton.mp h)
  | cons first rest ih =>
    unfold insert at h
    split at h
    · exact List.mem_cons.mp h
    · split at h
      · exact (List.mem_cons.mp h).imp_right (List.mem_cons_of_mem first)
      · rcases List.mem_cons.mp h with rfl | hrest
        · exact .inr List.mem_cons_self
        · exact (ih hrest).imp_right (List.mem_cons_of_mem first)

theorem Keyed.mem_names_insert {α : Type} {name other : String}
    {value : α} {entries : List (String × α)} :
    other ∈ (insert name value entries).map Prod.fst ↔
    other = name ∨ other ∈ entries.map Prod.fst := by
  induction entries with
  | nil => simp [insert]
  | cons first rest ih =>
    unfold insert
    split
    · simp
    · split
      · rename_i heq
        simp [heq]
      · rw [List.map_cons, List.mem_cons, ih, List.map_cons, List.mem_cons]
        exact or_left_comm

/-- Names that are inserted one after the other are all there in the end. -/
theorem Keyed.mem_names_foldl_insert {α : Type} {name : String} {value : α} {names : List String}
    {entries : List (String × α)} :
    name ∈ (names.foldl (fun found other => insert other value found) entries).map Prod.fst ↔
      name ∈ names ∨ name ∈ entries.map Prod.fst := by
  induction names generalizing entries with
  | nil => simp
  | cons first rest ih =>
    rw [List.foldl_cons, ih, mem_names_insert, List.mem_cons, or_left_comm, or_assoc]

theorem Keyed.lookup_insert_self {α : Type} (name : String)
    (value : α) (entries : List (String × α)) :
    (insert name value entries).lookup name = some value := by
  induction entries with
  | nil => simp [insert]
  | cons first rest ih =>
    unfold insert
    split
    · simp
    · rename_i hlt
      split
      · simp
      · rename_i hne
        rw [List.lookup_cons, beq_false_of_ne hne]
        exact ih

theorem Keyed.lookup_insert_of_ne {α : Type} {name other : String}
    (h : other ≠ name) (value : α) (entries : List (String × α)) :
    (insert name value entries).lookup other = entries.lookup other := by
  induction entries with
  | nil => simp [insert, h]
  | cons first rest ih =>
    unfold insert
    split
    · rw [List.lookup_cons, beq_false_of_ne h]
    · split
      · rename_i heq
        rw [List.lookup_cons, List.lookup_cons, ← heq, beq_false_of_ne h]
      · rw [List.lookup_cons, List.lookup_cons, ih]

namespace Catalog

/-! ### Registering -/

theorem find?_registerAll (catalog : Catalog) (entries : List (String × Emitter)) (kind : String) :
    (catalog.registerAll entries).find? kind =
      (entries.reverse.lookup kind).or (catalog.find? kind) := by
  induction entries generalizing catalog with
  | nil => rfl
  | cons entry rest ih =>
    obtain ⟨name, emitter⟩ := entry
    rw [List.reverse_cons, List.lookup_append, Option.or_assoc]
    refine (ih (catalog.register name emitter)).trans (congrArg _ ?_)
    by_cases heq : kind = name
    · subst heq
      simp [register, Catalog.find?, Keyed.lookup_insert_self]
    · simp [register, Catalog.find?, Keyed.lookup_insert_of_ne heq, List.lookup_cons,
        beq_false_of_ne heq]

theorem find?_withAlias (catalog : Catalog)
    (other kind : String) {asked : String} (h : asked ≠ other) :
    (catalog.withAlias other kind).find? asked = catalog.find? asked := by
  unfold withAlias
  split
  · exact Keyed.lookup_insert_of_ne h _ _
  · rfl

/-- Aliases leave alone what has another name. -/
theorem find?_withAliases (catalog : Catalog) {pairs : List (String × String)}
    {kind : String} (h : kind ∉ pairs.map Prod.fst) :
    (catalog.withAliases pairs).find? kind = catalog.find? kind := by
  induction pairs generalizing catalog with
  | nil => rfl
  | cons pair rest ih =>
    rw [List.map_cons, List.mem_cons, not_or] at h
    exact (ih (catalog.withAlias pair.1 pair.2) h.2).trans
      (find?_withAlias catalog pair.1 pair.2 h.1)

/-- An alias finds what its kind finds. -/
theorem find?_withAliases_of_mem {catalog : Catalog}
    {pairs : List (String × String)} {other kind : String} {emitter : Emitter}
    (hmem : (other, kind) ∈ pairs) (hnodup : (pairs.map Prod.fst).Nodup)
    (hkind : kind ∉ pairs.map Prod.fst) (h : catalog.find? kind = some emitter) :
    (catalog.withAliases pairs).find? other = some emitter := by
  induction pairs generalizing catalog with
  | nil => simp at hmem
  | cons pair rest ih =>
    rw [List.map_cons, List.nodup_cons] at hnodup
    rw [List.map_cons, List.mem_cons, not_or] at hkind
    show ((catalog.withAlias pair.1 pair.2).withAliases rest).find? other = some emitter
    rcases List.mem_cons.mp hmem with rfl | hrest
    · rw [find?_withAliases _ hnodup.1, withAlias, h]
      exact Keyed.lookup_insert_self _ _ _
    · exact ih hrest hnodup.2 hkind.2 ((find?_withAlias catalog pair.1 pair.2 hkind.1).trans h)

/-! ### Properties of all emitters -/

/-- A property of all emitters of a catalog. -/
def All (holds : Emitter → Prop) (catalog : Catalog) : Prop :=
  ∀ entry ∈ catalog.entries, holds entry.2

variable {holds : Emitter → Prop} {catalog : Catalog}

theorem All.find? (h : All holds catalog) {kind : String} {emitter : Emitter}
    (hfind : catalog.find? kind = some emitter) : holds emitter :=
  h (kind, emitter) (Keyed.mem_of_lookup hfind)

theorem All.register (h : All holds catalog) (kind : String)
    {emitter : Emitter} (hemitter : holds emitter) :
    All holds (catalog.register kind emitter) := by
  intro entry hentry
  rcases Keyed.mem_insert hentry with rfl | hold
  · exact hemitter
  · exact h entry hold

theorem All.registerAll (h : All holds catalog) {entries : List (String × Emitter)}
    (hentries : ∀ entry ∈ entries, holds entry.2) : All holds (catalog.registerAll entries) := by
  induction entries generalizing catalog with
  | nil => exact h
  | cons entry rest ih =>
    rw [List.forall_mem_cons] at hentries
    exact ih (h.register entry.1 hentries.1) hentries.2

theorem All.withAlias (h : All holds catalog) (other kind : String) :
    All holds (catalog.withAlias other kind) := by
  unfold Catalog.withAlias
  split
  · rename_i emitter hfind
    exact h.register other (h.find? hfind)
  · exact h

theorem All.withAliases (h : All holds catalog) (pairs : List (String × String)) :
    All holds (catalog.withAliases pairs) := by
  induction pairs generalizing catalog with
  | nil => exact h
  | cons pair rest ih => exact ih (h.withAlias pair.1 pair.2)

end Catalog

end BlockSynth
