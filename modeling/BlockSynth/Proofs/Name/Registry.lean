import BlockSynth.Name.Registry
import BlockSynth.Proofs.Name.Identifier
import Mathlib.Data.Finset.Card
import Mathlib.Data.List.Induction
import Mathlib.Data.List.Nodup
import Mathlib.Data.List.Pairwise
import Mathlib.Data.Nat.Find

/-! # What a registry gives out

Seen from outside, a registry answers one call after the other. A call that issues an
identifier gets one that nothing before it has been given and that no call has
reserved; a name that has been resolved keeps its identifier. Both are statements
about the log of the calls, in which the state of the registry does not occur; the log
and the state are tied together by an invariant that every call keeps.
-/
namespace BlockSynth.Registry

/-! ### Free identifiers -/

theorem candidate_toList (base : String) (k : Nat) :
    ∃ numeral, numeral.all Chars.isWordChar = true ∧
      (candidate base k).toList = base.toList ++ numeral := by
  cases k with
  | zero => exact ⟨[], rfl, by simp [candidate]⟩
  | succ k =>
    refine ⟨Nat.toDigits 10 (k + 2), Chars.toDigits_all_isWordChar _, ?_⟩
    simp [candidate]

theorem candidate_injective (base : String) : Function.Injective (candidate base) := by
  have hnumeral : ∀ i, candidate base (i + 1) ≠ base := by
    intro i h
    have hlen := congrArg (fun text : String => text.toList.length) h
    have hpos : 0 < (Nat.toDigits 10 (i + 2)).length := Nat.length_toDigits_pos
    simp only [candidate, String.toList_append, List.length_append, Nat.toString_eq_repr,
      Nat.toList_repr] at hlen
    omega
  intro i j h
  cases i with
  | zero =>
    cases j with
    | zero => rfl
    | succ j => exact absurd h.symm (hnumeral j)
  | succ i =>
    cases j with
    | zero => exact absurd h (hnumeral i)
    | succ j =>
      have hdigits : Nat.toDigits 10 (i + 2) = Nat.toDigits 10 (j + 2) := by
        simpa [candidate] using congrArg String.toList h
      have hvalue := congrArg (Nat.ofDigitChars 10 · 0) hdigits
      simp only [Nat.ofDigitChars_ten_toDigits] at hvalue
      omega

/-- The words that are reserved or issued; one that is both counts once. -/
def taken (names : Registry) : Finset String :=
  (names.issued ++ names.reserved).toFinset

theorem mem_taken_iff {names : Registry} {word : String} :
    word ∈ names.taken ↔ names.isTaken word = true := by
  simp [taken, isTaken]

theorem card_taken_le (names : Registry) :
    names.taken.card ≤ names.issued.length + names.reserved.length := by
  rw [← List.length_append]
  exact List.toFinset_card_le _

/-- One more candidate than there are taken words cannot all be taken. -/
theorem exists_free_candidate (names : Registry) (base : String) :
    ∃ k ≤ names.taken.card, names.isTaken (candidate base k) = false := by
  by_contra hall
  simp only [not_exists, not_and, Bool.not_eq_false] at hall
  have hsub : (Finset.range (names.taken.card + 1)).image (candidate base) ⊆ names.taken := by
    intro word hword
    obtain ⟨k, hk, rfl⟩ := Finset.mem_image.mp hword
    exact mem_taken_iff.mpr (hall k (Nat.lt_succ_iff.mp (Finset.mem_range.mp hk)))
  have hcard := Finset.card_le_card hsub
  rw [Finset.card_image_of_injective _ (candidate_injective base), Finset.card_range] at hcard
  omega

/-- The search finds the first free candidate if it is not given up before. -/
theorem firstFree_eq_of_least {names : Registry} {base : String} {k fuel j : Nat}
    (hj : k ≤ j) (hfuel : j ≤ k + fuel) (hfree : names.isTaken (candidate base j) = false)
    (hleast : ∀ i, k ≤ i → i < j → names.isTaken (candidate base i) = true) :
    names.firstFree base k fuel = candidate base j := by
  induction fuel generalizing k with
  | zero =>
    obtain rfl : j = k := by omega
    rfl
  | succ fuel ih =>
    unfold firstFree
    split
    · rename_i htaken
      have hne : j ≠ k := fun h => by simp [h ▸ hfree] at htaken
      exact ih (by omega) (by omega) fun i hi => hleast i (by omega)
    · rename_i hk
      rcases Nat.eq_or_lt_of_le hj with rfl | hlt
      · rfl
      · exact absurd (hleast k (Nat.le_refl k) hlt) hk

/-- A name is given the first of its candidates that is free. -/
theorem distinct_eq_candidate (names : Registry) (name : String) :
    ∃ k ≤ names.taken.card, names.distinct name = candidate (Text.sanitize name) k ∧
      names.isTaken (candidate (Text.sanitize name) k) = false ∧
      ∀ i < k, names.isTaken (candidate (Text.sanitize name) i) = true := by
  obtain ⟨bound, hbound, hfree⟩ := names.exists_free_candidate (Text.sanitize name)
  have hexists : ∃ k, names.isTaken (candidate (Text.sanitize name) k) = false := ⟨bound, hfree⟩
  have hle : Nat.find hexists ≤ names.taken.card := (Nat.find_min' hexists hfree).trans hbound
  have hleast : ∀ i < Nat.find hexists, names.isTaken (candidate (Text.sanitize name) i) = true :=
    fun i hi => by simpa using Nat.find_min hexists hi
  have hfuel := hle.trans names.card_taken_le
  refine ⟨Nat.find hexists, hle, ?_, Nat.find_spec hexists, hleast⟩
  exact firstFree_eq_of_least (Nat.zero_le _) (by omega) (Nat.find_spec hexists) fun i _ => hleast i

theorem isTaken_distinct (names : Registry) (name : String) :
    names.isTaken (names.distinct name) = false := by
  obtain ⟨k, -, hk, hfree, -⟩ := names.distinct_eq_candidate name
  rw [hk, hfree]

theorem isIdentifier_distinct (names : Registry) (name : String) :
    Chars.isIdentifier (names.distinct name).toList = true := by
  obtain ⟨k, -, hk, -⟩ := names.distinct_eq_candidate name
  obtain ⟨numeral, hall, hlist⟩ := candidate_toList (Text.sanitize name) k
  rw [hk, hlist]
  refine Chars.isIdentifier_append ?_ hall
  simpa [Text.sanitize] using Chars.isIdentifier_sanitize name.toList

theorem distinct_not_mem (names : Registry) (name : String) :
    names.distinct name ∉ names.issued ∧ names.distinct name ∉ names.reserved := by
  simpa [isTaken] using isTaken_distinct names name

/-! ### Calls and their log -/

inductive Call
  | reserve (words : List String)
  | resolve (space : Namespace) (name : String)
  | fresh (space : Namespace) (name : String)
  | lookup (space : Namespace) (name : String)
  | reset
  deriving DecidableEq, Repr

/-- What a call is answered, and the registry after it. -/
def perform (names : Registry) : Call → Option String × Registry
  | .reserve words => (none, names.reserve words)
  | .resolve space name => ((names.resolve space name).1, (names.resolve space name).2)
  | .fresh _ name => ((names.fresh name).1, (names.fresh name).2)
  | .lookup space name => (names.lookup space name, names)
  | .reset => (none, names.reset)

structure Entry where
  call : Call
  answer : Option String
  deriving DecidableEq, Repr

/-- The log of a run of calls, in their order. -/
def log (names : Registry) : List Call → List Entry
  | [] => []
  | call :: rest => ⟨call, (names.perform call).1⟩ :: (names.perform call).2.log rest

/-- The registry after a run of calls. -/
def after (names : Registry) : List Call → Registry
  | [] => names
  | call :: rest => (names.perform call).2.after rest

/-- The words that calls have reserved. -/
def reservedBy (calls : List Call) : List String :=
  calls.flatMap fun
    | .reserve words => words
    | _ => []

/-- The identifier that a call has been given. -/
def Entry.identifier (entry : Entry) : Option String :=
  match entry.call with
  | .resolve _ _ => entry.answer
  | .fresh _ _ => entry.answer
  | _ => none

/-- The identifiers in a log. -/
def given (entries : List Entry) : List String :=
  entries.filterMap Entry.identifier

/-- What `resolve` has last returned for a name in a namespace. -/
def lastResolved (space : Namespace) (name : String) (entries : List Entry) : Option String :=
  entries.foldl
    (fun last entry => if entry.call = .resolve space name then entry.answer else last) none

/-- An identifier that is neither avoided nor given out already. -/
structure IsNew (avoided : List String) (entries : List Entry) (word : String) : Prop where
  isIdentifier : Chars.isIdentifier word.toList = true
  notAvoided : word ∉ avoided
  notGiven : word ∉ given entries

/-- The right answer to a call after the calls of a log, with the given words reserved. -/
def Answers (avoided : List String) (entries : List Entry) : Call → Option String → Prop
  | .resolve space name, answer =>
    match lastResolved space name entries with
    | some word => answer = some word
    | none => ∃ word, answer = some word ∧ IsNew avoided entries word
  | .fresh _ _, answer => ∃ word, answer = some word ∧ IsNew avoided entries word
  | .lookup space name, answer => answer = lastResolved space name entries
  | .reserve _, _ => True
  | .reset, _ => True

/-- A call that leaves the registry alone. -/
def Settled (entries : List Entry) : Call → Prop
  | .resolve space name => (lastResolved space name entries).isSome
  | .lookup _ _ => True
  | _ => False

theorem log_append (names : Registry) (calls more : List Call) :
    names.log (calls ++ more) = names.log calls ++ (names.after calls).log more := by
  induction calls generalizing names with
  | nil => rfl
  | cons call rest ih => simp [log, after, ih]

theorem given_append (entries more : List Entry) :
    given (entries ++ more) = given entries ++ given more :=
  List.filterMap_append

theorem lastResolved_concat (space : Namespace)
    (name : String) (entries : List Entry) (entry : Entry) :
    lastResolved space name (entries ++ [entry]) =
      if entry.call = .resolve space name then entry.answer
        else lastResolved space name entries := by
  simp [lastResolved]

theorem exists_of_lastResolved {space : Namespace} {name word : String} {entries : List Entry}
    (h : lastResolved space name entries = some word) :
    ∃ entry ∈ entries, entry.call = .resolve space name ∧ entry.identifier = some word := by
  induction entries using List.reverseRecOn with
  | nil => simp [lastResolved] at h
  | append_singleton entries entry ih =>
    rw [lastResolved_concat] at h
    split at h
    · rename_i hcall
      exact ⟨entry, by simp, hcall, by simp [Entry.identifier, hcall, h]⟩
    · obtain ⟨found, hmem, hfound⟩ := ih h
      exact ⟨found, List.mem_append_left _ hmem, hfound⟩

theorem mem_given_of_lastResolved {space : Namespace} {name word : String} {entries : List Entry}
    (h : lastResolved space name entries = some word) : word ∈ given entries := by
  obtain ⟨entry, hmem, -, hword⟩ := exists_of_lastResolved h
  exact List.mem_filterMap.mpr ⟨entry, hmem, hword⟩

/-! ### The invariant -/

/-- The state of a registry that has reserved the given words and answered the calls of a log. -/
structure Tracks (avoided : List String) (entries : List Entry) (names : Registry) : Prop where
  reserved : ∀ word, word ∈ names.reserved ↔ word ∈ avoided
  issued : ∀ word, word ∈ names.issued ↔ word ∈ given entries
  resolved : ∀ space name, names.lookup space name = lastResolved space name entries

theorem tracks_reset {avoided : List String} {names : Registry}
    (h : ∀ word, word ∈ names.reserved ↔ word ∈ avoided) : Tracks avoided [] names.reset where
  reserved := h
  issued := by simp [reset, given]
  resolved := by simp [reset, lookup, lastResolved]

variable {avoided : List String} {entries : List Entry} {names : Registry}

theorem Tracks.isNew_distinct (h : Tracks avoided entries names) (name : String) :
    IsNew avoided entries (names.distinct name) where
  isIdentifier := isIdentifier_distinct names name
  notAvoided := fun hmem => (distinct_not_mem names name).2 ((h.reserved _).mpr hmem)
  notGiven := fun hmem => (distinct_not_mem names name).1 ((h.issued _).mpr hmem)

theorem resolve_of_lookup {space : Namespace} {name word : String}
    (h : names.lookup space name = some word) : names.resolve space name = (word, names) := by
  simp [resolve, h]

theorem resolve_of_not_lookup {space : Namespace} {name : String}
    (h : names.lookup space name = none) :
    names.resolve space name =
      (names.distinct name,
        { names with
          issued := names.distinct name :: names.issued
          resolved := ((space, name), names.distinct name) :: names.resolved }) := by
  simp [resolve, h, fresh]

theorem Tracks.answers (h : Tracks avoided entries names) (call : Call) :
    Answers avoided entries call (names.perform call).1 := by
  cases call with
  | resolve space name =>
    have hres := h.resolved space name
    simp only [Answers, perform]
    cases hlast : lastResolved space name entries with
    | some word =>
      rw [hlast] at hres
      simp [resolve_of_lookup hres]
    | none =>
      rw [hlast] at hres
      exact ⟨_, by rw [resolve_of_not_lookup hres], h.isNew_distinct name⟩
  | fresh space name => exact ⟨_, rfl, h.isNew_distinct name⟩
  | lookup space name => exact h.resolved space name
  | reserve words => trivial
  | reset => trivial

theorem Tracks.perform_of_settled (h : Tracks avoided entries names) {call : Call}
    (hs : Settled entries call) : (names.perform call).2 = names := by
  cases call with
  | resolve space name =>
    obtain ⟨word, hword⟩ := Option.isSome_iff_exists.mp hs
    have hres := (h.resolved space name).trans hword
    simp [perform, resolve_of_lookup hres]
  | lookup space name => rfl
  | fresh space name => exact hs.elim
  | reserve words => exact hs.elim
  | reset => exact hs.elim

theorem lookup_cons_resolved (space space' : Namespace) (name name' word : String) :
    ({ names with resolved := ((space, name), word) :: names.resolved } : Registry).lookup
      space' name' =
      if space = space' ∧ name = name' then some word else names.lookup space' name' := by
  simp only [lookup, List.lookup_cons]
  by_cases hpair : space = space' ∧ name = name'
  · simp [hpair.1, hpair.2]
  · have hne : ((space', name') == (space, name)) = false := by
      rw [beq_eq_false_iff_ne]
      intro heq
      exact hpair ⟨(congrArg Prod.fst heq).symm, (congrArg Prod.snd heq).symm⟩
    simp [hne, hpair]

theorem lookup_resolve (names : Registry) (space : Namespace) (name : String) :
    (names.resolve space name).2.lookup space name = some (names.resolve space name).1 := by
  cases hlookup : names.lookup space name with
  | some word => rw [resolve_of_lookup hlookup, hlookup]
  | none =>
    rw [resolve_of_not_lookup hlookup]
    exact (lookup_cons_resolved space space name name _).trans (if_pos ⟨rfl, rfl⟩)

theorem lookup_resolve_of_lookup {space : Namespace} {name word : String}
    (h : names.lookup space name = some word) (space' : Namespace) (name' : String) :
    (names.resolve space' name').2.lookup space name = some word := by
  cases hlookup : names.lookup space' name' with
  | some other =>
    rw [resolve_of_lookup hlookup]
    exact h
  | none =>
    rw [resolve_of_not_lookup hlookup]
    refine (lookup_cons_resolved space' space name' name _).trans ?_
    rw [if_neg, h]
    rintro ⟨rfl, rfl⟩
    simp [h] at hlookup

theorem lookup_resolveAll_of_lookup {space : Namespace} {name word : String}
    (h : names.lookup space name = some word) (space' : Namespace) (list : List String) :
    (names.resolveAll space' list).2.lookup space name = some word := by
  induction list generalizing names with
  | nil => exact h
  | cons name' rest ih => exact ih (lookup_resolve_of_lookup h space' name')

/-- A name that has a word keeps it, and the word was given before. -/
theorem Tracks.resolve_again (h : Tracks avoided entries names) {space : Namespace}
    {name word : String} (hlast : lastResolved space name entries = some word) :
    Tracks avoided (entries ++ [⟨.resolve space name, some word⟩]) names := by
  refine ⟨h.reserved, fun word' => ?_, fun space' name' => ?_⟩
  · simp only [h.issued, given_append, List.mem_append]
    constructor
    · exact .inl
    · rintro (hmem | hmem)
      · exact hmem
      · obtain rfl : word' = word := by simpa [given, Entry.identifier] using hmem
        exact mem_given_of_lastResolved hlast
  · simp only [lastResolved_concat, Call.resolve.injEq]
    split
    · rename_i hpair
      rw [← hpair.1, ← hpair.2, h.resolved, hlast]
    · exact h.resolved space' name'

theorem Tracks.resolve_anew (h : Tracks avoided entries names) (space : Namespace)
    (name word : String) :
    Tracks avoided (entries ++ [⟨.resolve space name, some word⟩])
      { names with
        issued := word :: names.issued
        resolved := ((space, name), word) :: names.resolved } := by
  refine ⟨h.reserved, fun word' => ?_, fun space' name' => ?_⟩
  · simp [given, Entry.identifier, h.issued, or_comm]
  · simp only [lastResolved_concat, Call.resolve.injEq]
    rw [← h.resolved space' name']
    exact lookup_cons_resolved space space' name name' _

/-- Every call but a reset keeps log and state together. -/
theorem Tracks.perform (h : Tracks avoided entries names) {call : Call} (hcall : call ≠ .reset) :
    Tracks (avoided ++ reservedBy [call]) (entries ++ [⟨call, (names.perform call).1⟩])
      (names.perform call).2 := by
  cases call with
  | reset => exact absurd rfl hcall
  | reserve words =>
    refine ⟨fun word => ?_, fun word => ?_, fun space name => ?_⟩
    · simp [Registry.perform, reserve, reservedBy, h.reserved]
    · simp [Registry.perform, reserve, given, Entry.identifier, h.issued]
    · rw [lastResolved_concat, if_neg (by simp)]
      exact h.resolved space name
  | lookup space name =>
    refine ⟨fun word => ?_, fun word => ?_, fun space' name' => ?_⟩
    · simp [Registry.perform, reservedBy, h.reserved]
    · simp [Registry.perform, given, Entry.identifier, h.issued]
    · rw [lastResolved_concat, if_neg (by simp)]
      exact h.resolved space' name'
  | fresh space name =>
    refine ⟨fun word => ?_, fun word => ?_, fun space' name' => ?_⟩
    · simp [Registry.perform, fresh, reservedBy, h.reserved]
    · simp [Registry.perform, fresh, given, Entry.identifier, h.issued, or_comm]
    · rw [lastResolved_concat, if_neg (by simp)]
      exact h.resolved space' name'
  | resolve space name =>
    have hnone : avoided ++ reservedBy [.resolve space name] = avoided := by simp [reservedBy]
    have hres := h.resolved space name
    rw [hnone, Registry.perform]
    cases hlast : lastResolved space name entries with
    | some word =>
      rw [resolve_of_lookup (hres.trans hlast)]
      exact h.resolve_again hlast
    | none =>
      rw [resolve_of_not_lookup (hres.trans hlast)]
      exact h.resolve_anew space name _

theorem Tracks.after (h : Tracks avoided entries names) {calls : List Call}
    (hcalls : Call.reset ∉ calls) :
    Tracks (avoided ++ reservedBy calls) (entries ++ names.log calls) (names.after calls) := by
  induction calls generalizing avoided entries names with
  | nil => simpa [reservedBy, log, Registry.after] using h
  | cons call rest ih =>
    simp only [List.mem_cons, not_or] at hcalls
    have hstep := h.perform (Ne.symm hcalls.1)
    simpa [reservedBy, log, Registry.after] using ih hstep hcalls.2

theorem mem_reserved_after (calls : List Call) (word : String) :
    word ∈ (names.after calls).reserved ↔ word ∈ names.reserved ∨ word ∈ reservedBy calls := by
  induction calls generalizing names with
  | nil => simp [Registry.after, reservedBy]
  | cons call rest ih =>
    have hstep : word ∈ (names.perform call).2.reserved ↔
        word ∈ names.reserved ∨ word ∈ reservedBy [call] := by
      cases call with
      | resolve space name =>
        cases hlook : names.lookup space name with
        | some found => simp [Registry.perform, resolve_of_lookup hlook, reservedBy]
        | none => simp [Registry.perform, resolve_of_not_lookup hlook, reservedBy]
      | fresh space name => simp [Registry.perform, fresh, reservedBy]
      | lookup space name => simp [Registry.perform, reservedBy]
      | reserve words => simp [Registry.perform, reserve, reservedBy]
      | reset => simp [Registry.perform, reset, reservedBy]
    rw [Registry.after, ih, hstep, or_assoc]
    simp [reservedBy]

/-- Two entries with one identifier are about one resolved name. -/
def Entry.Apart (entry other : Entry) : Prop :=
  ∀ word, entry.identifier = some word → other.identifier = some word →
    ∃ space name, entry.call = .resolve space name ∧ other.call = .resolve space name

instance : Std.Symm Entry.Apart where
  symm entry other h word hother hentry := by
    obtain ⟨space, name, he, ho⟩ := h word hentry hother
    exact ⟨space, name, ho, he⟩

/-- An entry that answers rightly shares its identifier only with the name it resolves. -/
theorem apart_of_answers (hpairwise : entries.Pairwise Entry.Apart) {call : Call}
    {answer : Option String} (hanswer : Answers avoided entries call answer) :
    ∀ entry ∈ entries, entry.Apart ⟨call, answer⟩ := by
  intro entry hmem word hword hsame
  have hgiven : word ∈ given entries := List.mem_filterMap.mpr ⟨entry, hmem, hword⟩
  have hnot : ∀ {found : String}, answer = some found → IsNew avoided entries found →
      answer = some word → False := by
    rintro found rfl hnew heq
    exact hnew.notGiven (Option.some.inj heq ▸ hgiven)
  cases call with
  | fresh space name =>
    obtain ⟨found, hfound, hnew⟩ := hanswer
    exact (hnot hfound hnew hsame).elim
  | resolve space name =>
    simp only [Answers] at hanswer
    cases hlast : lastResolved space name entries with
    | none =>
      rw [hlast] at hanswer
      obtain ⟨found, hfound, hnew⟩ := hanswer
      exact (hnot hfound hnew hsame).elim
    | some found =>
      rw [hlast] at hanswer
      obtain rfl : found = word := Option.some.inj (hanswer.symm.trans hsame)
      obtain ⟨first, hfirst, hcall, hident⟩ := exists_of_lastResolved hlast
      by_cases heq : entry = first
      · exact ⟨space, name, heq ▸ hcall, rfl⟩
      · obtain ⟨space', name', hentry, hother⟩ :=
          hpairwise.forall hmem hfirst heq found hword hident
        rw [hcall] at hother
        exact ⟨space, name, hentry.trans hother.symm, rfl⟩
  | lookup space name => simp [Entry.identifier] at hsame
  | reserve words => simp [Entry.identifier] at hsame
  | reset => simp [Entry.identifier] at hsame

theorem Tracks.pairwise_log (h : Tracks avoided [] names) {calls : List Call}
    (hcalls : Call.reset ∉ calls) : (names.log calls).Pairwise Entry.Apart := by
  induction calls using List.reverseRecOn with
  | nil => exact List.Pairwise.nil
  | append_singleton before call ih =>
    simp only [List.mem_append, not_or] at hcalls
    have hlog := ih hcalls.1
    have htracks := h.after hcalls.1
    rw [List.nil_append] at htracks
    rw [log_append]
    refine List.pairwise_append.mpr ⟨hlog, List.pairwise_singleton .., ?_⟩
    intro entry hmem other hother
    obtain rfl : other = ⟨call, ((names.after before).perform call).1⟩ := by
      simpa [log] using hother
    exact apart_of_answers hlog (htracks.answers call) entry hmem

/-- Calls on a registry that is new or has been reset are answered from their log alone: an issued
identifier is new and reserved by no call, also not by one before the reset; a resolved name keeps
its identifier, and asking for it again changes nothing; a look-up returns what has last been
resolved. No two names, and no name and fresh identifier, share one. -/
theorem calls_are_answered_from_the_log (earlier calls : List Call) (hcalls : Call.reset ∉ calls) :
    let start := (Registry.after {} earlier).reset
    (∀ before call later, calls = before ++ call :: later →
      Answers (reservedBy (earlier ++ before)) (start.log before) call
          ((start.after before).perform call).1 ∧
        (Settled (start.log before) call →
          ((start.after before).perform call).2 = start.after before)) ∧
      (start.log calls).Pairwise Entry.Apart := by
  intro start
  have hstart : Tracks (reservedBy earlier) [] start :=
    tracks_reset fun word => by simpa using @mem_reserved_after {} earlier word
  refine ⟨?_, hstart.pairwise_log hcalls⟩
  rintro before call later rfl
  simp only [List.mem_append, not_or] at hcalls
  have htracks := hstart.after hcalls.1
  have hreserved : reservedBy (earlier ++ before) = reservedBy earlier ++ reservedBy before := by
    simp [reservedBy]
  rw [List.nil_append, ← hreserved] at htracks
  exact ⟨htracks.answers call, htracks.perform_of_settled⟩

/-- Names that sanitize to each other's numerals, after a reset that keeps `x` reserved. -/
theorem calls_for_colliding_names_are_answered :
    let earlier : List Call := [.reserve ["x"], .resolve .variable "x", .reset]
    let calls : List Call :=
      [.resolve .variable "x 2", .fresh .variable "x", .resolve .procedure "x",
        .resolve .variable "x 2", .lookup .procedure "x"]
    let start := (Registry.after {} earlier).reset
    Call.reset ∉ calls ∧
      Answers (reservedBy earlier) [] (.resolve .variable "x 2")
        (start.perform (.resolve .variable "x 2")).1 ∧
      (start.log calls).Pairwise Entry.Apart := by
  intro earlier calls start
  have hcalls : Call.reset ∉ calls := by decide
  have hrun := calls_are_answered_from_the_log earlier calls hcalls
  exact ⟨hcalls, (hrun.1 [] _ _ rfl).1, hrun.2⟩

end BlockSynth.Registry
