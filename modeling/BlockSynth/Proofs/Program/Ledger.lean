import BlockSynth.Described
import BlockSynth.Proofs.Catalog
import BlockSynth.Proofs.Name.Registry
import BlockSynth.Proofs.Program.Definitions
import BlockSynth.Render
import Mathlib.Data.List.Dedup

/-! # Helpers are realized once

The table of helpers, the registry and the definitions are kept apart, and a definition replaces an
older one under its key. What ties them together is that the name of a helper is drawn from the
registry: a new one has never been issued, so it cannot be the name of a helper that is defined
already, whatever calls came before.
-/
namespace BlockSynth.Ledger

inductive Call
  | provide (key template : String)
  | resolve (space : Namespace) (name : String)
  | fresh (name : String)
  | require (tag text : String)
  | define (name text : String)
  deriving DecidableEq, Repr

/-- The key and template of a helper that a call asks for. -/
def Call.request? : Call → Option (String × String)
  | provide key template => some (key, template)
  | _ => none

def perform (unit : String) (ledger : Ledger) : Call → Ledger
  | .provide key template => (ledger.provide unit key template).2
  | .resolve space name => (ledger.resolve space name).2
  | .fresh name => (ledger.fresh name).2
  | .require tag text => ledger.require tag text
  | .define name text => ledger.define name text

def after (unit : String) (ledger : Ledger) (calls : List Call) : Ledger :=
  calls.foldl (perform unit) ledger

/-- A helper that has been asked for, by key and template, and the name that it has been given. -/
abbrev Grant := (String × String) × String

/-- The requests for helpers in a run of calls, each with its answer. -/
def grants (unit : String) (ledger : Ledger) : List Call → List Grant
  | [] => []
  | call :: rest =>
    (call.request?.map fun request =>
      (request, (ledger.provide unit request.1 request.2).1)).toList ++
      grants unit (ledger.perform unit call) rest

variable {unit : String} {ledger : Ledger}

theorem grants_append (calls more : List Call) :
    grants unit ledger (calls ++ more) =
      grants unit ledger calls ++ grants unit (ledger.after unit calls) more := by
  induction calls generalizing ledger with
  | nil => rfl
  | cons call rest ih =>
    simp only [List.cons_append, grants, ih, List.append_assoc]
    rfl

theorem map_fst_grants (calls : List Call) :
    (grants unit ledger calls).map Prod.fst = calls.filterMap Call.request? := by
  induction calls generalizing ledger with
  | nil => rfl
  | cons call rest ih =>
    rw [grants, List.map_append, ih, List.filterMap_cons]
    cases call.request? with
    | none => rfl
    | some request => rfl

/-! ### Steps of the ledger -/

theorem provide_of_lookup {key template name : String}
    (h : ledger.helpers.lookup key template = some name) :
    ledger.provide unit key template = (name, ledger) := by
  simp [provide, h]

theorem provide_of_not_lookup {key template : String}
    (h : ledger.helpers.lookup key template = none) :
    ledger.provide unit key template =
      (ledger.names.distinct key,
        { names := (ledger.names.fresh key).2
          helpers := ⟨((key, template), ledger.names.distinct key) :: ledger.helpers.realized⟩
          definitions := ledger.definitions.insert (.helper (ledger.names.distinct key))
            (realizeTemplate unit template (ledger.names.distinct key)) }) := by
  simp [provide, h, Registry.fresh]

/-- What is required again changes nothing. -/
theorem require_cases (ledger : Ledger) (tag text : String) : ledger.require tag text = ledger ∨
    ledger.require tag text =
      { ledger with definitions := ledger.definitions.insert (.importing tag) text } := by
  unfold require
  rcases ledger.definitions.insertIfAbsent_cases (.importing tag) text with ⟨-, heq⟩ | ⟨-, heq⟩
  · exact .inl (by rw [heq])
  · exact .inr (by rw [heq])

theorem issued_subset_fresh (names : Registry) (name : String) :
    names.issued ⊆ (names.fresh name).2.issued :=
  List.subset_cons_self _ _

theorem issued_subset_resolve (names : Registry) (space : Namespace) (name : String) :
    names.issued ⊆ (names.resolve space name).2.issued := by
  cases hlookup : names.lookup space name with
  | some word => simp [Registry.resolve_of_lookup hlookup]
  | none => simp [Registry.resolve_of_not_lookup hlookup]

/-! ### The invariant -/

/-- The entry of a helper in the definitions. -/
def helperEntry (unit : String) (grant : Grant) : DefinitionKey × String :=
  (.helper grant.2, realizeTemplate unit grant.1.2 grant.2)

/-- The table, the registry and the definitions of a ledger that has granted certain requests. -/
structure Honours (unit : String) (granted : List Grant) (ledger : Ledger) : Prop where
  realized : ∀ grant, grant ∈ ledger.helpers.realized ↔ grant ∈ granted
  requests : (ledger.helpers.realized.map Prod.fst).Nodup
  names : (ledger.helpers.realized.map Prod.snd).Nodup
  issued : ∀ grant ∈ ledger.helpers.realized, grant.2 ∈ ledger.names.issued
  defined : ledger.definitions.entries.filter (·.1.isHelper) =
    ledger.helpers.realized.reverse.map (helperEntry unit)

variable {granted : List Grant}

theorem Honours.lookup (h : Honours unit granted ledger)
    {grant : Grant} (hgrant : grant ∈ granted) :
    ledger.helpers.lookup grant.1.1 grant.1.2 = some grant.2 :=
  Keyed.lookup_of_mem h.requests ((h.realized grant).mpr hgrant)

theorem Honours.not_mem_keys (h : Honours unit granted ledger) (key : String) :
    .helper (ledger.names.distinct key) ∉ ledger.definitions.keys := by
  intro hmem
  obtain ⟨entry, hentry, hkey⟩ := List.mem_map.mp hmem
  have hhelper : entry ∈ ledger.definitions.entries.filter (·.1.isHelper) := by
    simp [hentry, hkey, DefinitionKey.isHelper]
  rw [h.defined] at hhelper
  obtain ⟨grant, hgrant, rfl⟩ := List.mem_map.mp hhelper
  obtain hname : grant.2 = ledger.names.distinct key := DefinitionKey.helper.inj hkey
  have hissued := h.issued grant (List.mem_reverse.mp hgrant)
  exact (ledger.names.distinct_not_mem key).1 (hname ▸ hissued)

theorem Honours.provide (h : Honours unit granted ledger) (key template : String) :
    Honours unit (granted ++ [((key, template), (ledger.provide unit key template).1)])
      (ledger.provide unit key template).2 := by
  cases hlookup : ledger.helpers.lookup key template with
  | some name =>
    rw [provide_of_lookup hlookup]
    refine ⟨fun grant => ?_, h.requests, h.names, h.issued, h.defined⟩
    have hold : ((key, template), name) ∈ granted := (h.realized _).mp (Keyed.mem_of_lookup hlookup)
    rw [h.realized, List.mem_append, List.mem_singleton]
    constructor
    · exact .inl
    · rintro (hmem | rfl)
      · exact hmem
      · exact hold
  | none =>
    rw [provide_of_not_lookup hlookup]
    have hrequest : (key, template) ∉ ledger.helpers.realized.map Prod.fst := by
      intro hmem
      obtain ⟨grant, hgrant, heq⟩ := List.mem_map.mp hmem
      have hnone := List.lookup_eq_none_iff.mp hlookup grant hgrant
      simp [heq] at hnone
    have hname : ledger.names.distinct key ∉ ledger.helpers.realized.map Prod.snd := by
      intro hmem
      obtain ⟨grant, hgrant, heq⟩ := List.mem_map.mp hmem
      exact (ledger.names.distinct_not_mem key).1 (heq ▸ h.issued grant hgrant)
    refine ⟨fun grant => ?_, List.nodup_cons.mpr ⟨hrequest, h.requests⟩,
      List.nodup_cons.mpr ⟨hname, h.names⟩, ?_, ?_⟩
    · simp [h.realized, or_comm]
    · refine List.forall_mem_cons.mpr ⟨List.mem_cons_self, fun grant hgrant => ?_⟩
      exact issued_subset_fresh ledger.names key (h.issued grant hgrant)
    · rw [Definitions.insert_of_not_mem (h.not_mem_keys key), List.filter_append, h.defined]
      simp [helperEntry, DefinitionKey.isHelper]

/-- Definitions under keys of other kinds leave the helpers alone. -/
theorem Honours.insert (h : Honours unit granted ledger)
    {key : DefinitionKey} (hkey : key.isHelper = false) (text : String) :
    Honours unit granted { ledger with definitions := ledger.definitions.insert key text } := by
  refine ⟨h.realized, h.requests, h.names, h.issued, ?_⟩
  rw [Definitions.filter_insert_of_not DefinitionKey.isHelper hkey, h.defined]

theorem Honours.withNames (h : Honours unit granted ledger) {names : Registry}
    (hnames : ledger.names.issued ⊆ names.issued) : Honours unit granted { ledger with names } :=
  ⟨h.realized, h.requests, h.names, fun grant hgrant => hnames (h.issued grant hgrant), h.defined⟩

/-- Every call keeps the invariant, and a call for a helper adds its grant. -/
theorem Honours.perform (h : Honours unit granted ledger) (call : Call) :
    Honours unit (granted ++ grants unit ledger [call]) (ledger.perform unit call) := by
  have hnone : call.request? = none → granted ++ grants unit ledger [call] = granted := by
    intro hcall
    simp [grants, hcall]
  cases call with
  | provide key template => exact h.provide key template
  | resolve space name =>
    rw [hnone rfl]
    exact h.withNames (issued_subset_resolve ledger.names space name)
  | fresh name =>
    rw [hnone rfl]
    exact h.withNames (issued_subset_fresh ledger.names name)
  | require tag text =>
    rw [hnone rfl]
    show Honours unit granted (ledger.require tag text)
    rcases ledger.require_cases tag text with heq | heq
    · rw [heq]
      exact h
    · rw [heq]
      exact h.insert rfl text
  | define name text =>
    rw [hnone rfl]
    exact h.insert rfl text

theorem Honours.after (h : Honours unit granted ledger) (calls : List Call) :
    Honours unit (granted ++ grants unit ledger calls) (ledger.after unit calls) := by
  induction calls generalizing ledger granted with
  | nil => simpa [grants, Ledger.after] using h
  | cons call rest ih =>
    have hsplit := @grants_append unit ledger [call] rest
    rw [List.singleton_append] at hsplit
    rw [hsplit, ← List.append_assoc]
    exact ih (h.perform call)

theorem honours_start (setting : Setting) : Honours unit [] setting.session.toLedger where
  realized _ := Iff.rfl
  requests := List.nodup_nil
  names := List.nodup_nil
  issued := List.forall_mem_nil _
  defined := rfl

/-! ### What the invariant says about helpers -/

theorem Honours.request_eq_iff (h : Honours unit granted ledger)
    {grant other : Grant} (hgrant : grant ∈ granted) (hother : other ∈ granted) :
    grant.1 = other.1 ↔ grant.2 = other.2 := by
  have hmem := (h.realized grant).mpr hgrant
  have hmem' := (h.realized other).mpr hother
  constructor
  · intro heq
    rw [List.inj_on_of_nodup_map h.requests hmem hmem' heq]
  · intro heq
    rw [List.inj_on_of_nodup_map h.names hmem hmem' heq]

theorem Honours.entries_of_name (h : Honours unit granted ledger)
    {grant : Grant} (hgrant : grant ∈ granted) :
    ledger.definitions.entries.filter (·.1 == .helper grant.2) = [helperEntry unit grant] := by
  have hmem : grant ∈ ledger.helpers.realized.reverse :=
    List.mem_reverse.mpr ((h.realized grant).mpr hgrant)
  have hnodup : ledger.helpers.realized.reverse.Nodup := List.nodup_reverse.mpr h.names.of_map
  have hkey : ∀ key : DefinitionKey,
      (key == .helper grant.2) = (key == .helper grant.2 && key.isHelper) := by
    intro key
    cases key <;> simp [DefinitionKey.isHelper]
  have hsame : ∀ other ∈ ledger.helpers.realized.reverse,
      ((helperEntry unit other).1 == .helper grant.2) = (other == grant) := by
    intro other hother
    by_cases heq : other = grant
    · simp [heq, helperEntry]
    · have hne : other.2 ≠ grant.2 := fun hname =>
        heq (List.inj_on_of_nodup_map h.names (List.mem_reverse.mp hother)
          (List.mem_reverse.mp hmem) hname)
      simp [heq, hne, helperEntry]
  calc ledger.definitions.entries.filter (·.1 == .helper grant.2)
      = (ledger.definitions.entries.filter (·.1.isHelper)).filter (·.1 == .helper grant.2) := by
        rw [List.filter_filter]
        exact List.filter_congr fun entry _ => hkey entry.1
    _ = (ledger.helpers.realized.reverse.filter (· == grant)).map (helperEntry unit) := by
        rw [h.defined, List.filter_map]
        exact congrArg _ (List.filter_congr hsame)
    _ = [helperEntry unit grant] := by
        rw [List.filter_beq, List.count_eq_one_of_mem hnodup hmem]
        rfl

theorem Honours.length_helpers (h : Honours unit granted ledger) :
    (ledger.definitions.entries.filter (·.1.isHelper)).length =
      (granted.map Prod.fst).dedup.length := by
  have hperm : (ledger.helpers.realized.map Prod.fst).Perm (granted.map Prod.fst).dedup := by
    refine (List.perm_ext_iff_of_nodup h.requests (List.nodup_dedup _)).mpr fun request => ?_
    simp [List.mem_dedup, h.realized]
  rw [h.defined, ← hperm.length_eq]
  simp

/-- After any run of calls on a new ledger, the requests for helpers and the names
they have been given determine each other. The helper of a request has one definition,
whose text is the template with that name; there are as many helpers as there are
different requests; and asking again changes nothing. -/
theorem helpers_are_realized_once (setting : Setting) (calls : List Call) :
    let unit := setting.config.indentUnit
    let granted := grants unit setting.session.toLedger calls
    let ledger := setting.session.toLedger.after unit calls
    granted.map Prod.fst = calls.filterMap Call.request? ∧
      (∀ grant ∈ granted, ∀ other ∈ granted, grant.1 = other.1 ↔ grant.2 = other.2) ∧
      (∀ grant ∈ granted,
        ledger.definitions.entries.filter (·.1 == .helper grant.2) =
            [(.helper grant.2,
              Text.reindent unit (Text.replace helperMark grant.2 (Text.trim grant.1.2)))] ∧
          ledger.provide unit grant.1.1 grant.1.2 = (grant.2, ledger)) ∧
      (ledger.definitions.entries.filter (·.1.isHelper)).length =
        (calls.filterMap Call.request?).dedup.length := by
  intro unit granted ledger
  have hhonours : Honours unit granted ledger := (honours_start setting).after calls
  have hrequests : granted.map Prod.fst = calls.filterMap Call.request? := map_fst_grants calls
  refine ⟨hrequests, fun grant hgrant other hother => hhonours.request_eq_iff hgrant hother,
    fun grant hgrant => ⟨hhonours.entries_of_name hgrant, ?_⟩, ?_⟩
  · exact provide_of_lookup (hhonours.lookup hgrant)
  · rw [hhonours.length_helpers, hrequests]

/-- Two helpers of one key, asked for between names of the workspace that look like theirs. -/
theorem helpers_beside_lookalikes_are_realized_once :
    let setting : Setting := ⟨Description.target {}, {}⟩
    let up := "fn " ++ helperMark ++ " up"
    let down := "fn " ++ helperMark ++ " down"
    let calls : List Call :=
      [.resolve .variable "lists_sort", .provide "lists_sort" up, .provide "lists_sort" down,
        .resolve .procedure "lists_sort3", .define "lists_sort2" "", .provide "lists_sort" up]
    let ledger := setting.session.toLedger.after setting.config.indentUnit calls
    (grants setting.config.indentUnit setting.session.toLedger calls).map Prod.snd =
        ["lists_sort2", "lists_sort3", "lists_sort2"] ∧
      ledger.definitions.entries.filter (·.1 == .helper "lists_sort2") =
        [(.helper "lists_sort2", "fn lists_sort2 up")] ∧
      ledger.provide setting.config.indentUnit "lists_sort" up = ("lists_sort2", ledger) := by
  intro setting up down calls ledger
  have hgrant : (("lists_sort", up), "lists_sort2") ∈
      grants setting.config.indentUnit setting.session.toLedger calls := by decide +kernel
  have htext : Text.reindent setting.config.indentUnit
      (Text.replace helperMark "lists_sort2" (Text.trim up)) =
      "fn lists_sort2 up" := by decide +kernel
  have hhelpers := helpers_are_realized_once setting calls
  have hentry := hhelpers.2.2.1 _ hgrant
  rw [htext] at hentry
  exact ⟨by decide +kernel, hentry⟩

end BlockSynth.Ledger
