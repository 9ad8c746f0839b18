import BlockSynth.Proofs.Zig.Anonymous
import Mathlib.Data.List.Nodup
import Mathlib.Data.List.Perm.Subperm
import Mathlib.Data.Nat.Nth

/-! # Settled workspaces

Settling walks the nodes twice: once over the ids that they bring along, to find one that repeats,
and once to number the nodes that bring none. The second walk is followed on the list of ids alone.
The number it has come to is the largest one given out, so the free numbers up to it are as many as
the nodes that have been numbered.
-/
namespace BlockSynth

/-! ### Repeated ids -/

theorem firstRepeated_eq_some_iff {seen texts : List String} {text : String} (hseen : seen.Nodup) :
    firstRepeated seen texts = some text ↔
      ∃ before after, texts = before ++ text :: after ∧ text ∈ seen ++ before ∧
        (seen ++ before).Nodup := by
  induction texts generalizing seen with
  | nil => simp [firstRepeated]
  | cons first rest ih =>
    unfold firstRepeated
    by_cases hfirst : first ∈ seen
    · rw [if_pos (List.contains_iff_mem.mpr hfirst)]
      constructor
      · intro h
        obtain rfl := Option.some.inj h
        exact ⟨[], rest, rfl, by simpa using hfirst, by simpa using hseen⟩
      · rintro ⟨before, after, htexts, hmem, hnodup⟩
        cases before with
        | nil => exact congrArg some (List.cons.inj htexts).1
        | cons other before =>
          obtain rfl := (List.cons.inj htexts).1
          have hapart := List.disjoint_of_nodup_append hnodup hfirst
          exact absurd List.mem_cons_self hapart
    · rw [if_neg (by simpa using hfirst), ih (List.nodup_cons.mpr ⟨hfirst, hseen⟩)]
      -- What has been seen and what stands before is the same, wherever `first` is counted.
      have hmiddle : ∀ before, (seen ++ first :: before).Perm (first :: seen ++ before) :=
        fun before => List.perm_middle
      constructor
      · rintro ⟨before, after, rfl, hmem, hnodup⟩
        exact ⟨first :: before, after, rfl, (hmiddle before).mem_iff.mpr hmem,
          (hmiddle before).nodup_iff.mpr hnodup⟩
      · rintro ⟨before, after, htexts, hmem, hnodup⟩
        cases before with
        | nil =>
          obtain rfl := (List.cons.inj htexts).1
          exact absurd (by simpa using hmem) hfirst
        | cons other before =>
          obtain ⟨rfl, rfl⟩ := List.cons.inj htexts
          exact ⟨before, after, rfl, (hmiddle before).mem_iff.mp hmem,
            (hmiddle before).nodup_iff.mp hnodup⟩

theorem firstRepeated_eq_none_iff {seen texts : List String} (hseen : seen.Nodup) :
    firstRepeated seen texts = none ↔ (seen ++ texts).Nodup := by
  induction texts generalizing seen with
  | nil => simpa [firstRepeated] using hseen
  | cons first rest ih =>
    unfold firstRepeated
    by_cases hfirst : first ∈ seen
    · rw [if_pos (List.contains_iff_mem.mpr hfirst)]
      have hrepeat : ¬(seen ++ first :: rest).Nodup :=
        fun hnodup => List.disjoint_of_nodup_append hnodup hfirst List.mem_cons_self
      simp [hrepeat]
    · rw [if_neg (by simpa using hfirst), ih (List.nodup_cons.mpr ⟨hfirst, hseen⟩)]
      exact (List.perm_middle (a := first)).nodup_iff.symm

/-! ### Free numbers -/

/-- The number makes an id that is not taken. -/
def Free (taken : List String) (number : Nat) : Prop :=
  0 < number ∧ numberedId number ∉ taken

instance (taken : List String) : DecidablePred (Free taken) :=
  fun number => inferInstanceAs (Decidable (0 < number ∧ numberedId number ∉ taken))

theorem numberedId_injective : Function.Injective numberedId := by
  intro number other h
  have hdigits : Nat.toDigits 10 number = Nat.toDigits 10 other := by
    simpa [numberedId] using congrArg String.toList h
  have hvalue := congrArg (Nat.ofDigitChars 10 · 0) hdigits
  simpa only [Nat.ofDigitChars_ten_toDigits] using hvalue

theorem numberedId_ne_empty (number : Nat) : numberedId number ≠ "" := by
  intro h
  simpa [numberedId] using congrArg String.toList h

/-- One more number than there are taken ids cannot all make taken ones. -/
theorem exists_numberedId_not_mem (taken : List String) (number : Nat) :
    ∃ other, number ≤ other ∧ other ≤ number + taken.length ∧ numberedId other ∉ taken := by
  by_contra hall
  simp only [not_exists, not_and, not_not] at hall
  let ids := (List.range (taken.length + 1)).map fun step => numberedId (number + step)
  have hnodup : ids.Nodup :=
    List.nodup_range.map (numberedId_injective.comp (add_right_injective number))
  have hsub : ids ⊆ taken := by
    intro id hid
    obtain ⟨step, hstep, rfl⟩ := List.mem_map.mp hid
    rw [List.mem_range] at hstep
    exact hall (number + step) (by omega) (by omega)
  have hlength := (hnodup.subperm hsub).length_le
  simp only [ids, List.length_map, List.length_range] at hlength
  omega

theorem infinite_free (taken : List String) : {number | Free taken number}.Infinite := by
  refine Set.infinite_of_forall_exists_gt fun number => ?_
  obtain ⟨other, hlow, -, hother⟩ := exists_numberedId_not_mem taken (number + 1)
  exact ⟨other, ⟨by omega, hother⟩, hlow⟩

theorem freeNumber_spec {taken : List String} {number fuel other : Nat} (hlow : number ≤ other)
    (hhigh : other ≤ number + fuel) (hother : numberedId other ∉ taken) :
    number ≤ freeNumber taken number fuel ∧ numberedId (freeNumber taken number fuel) ∉ taken ∧
      ∀ passed, number ≤ passed → passed < freeNumber taken number fuel →
        numberedId passed ∈ taken := by
  induction fuel generalizing number with
  | zero =>
    obtain rfl : other = number := by omega
    exact ⟨Nat.le_refl _, hother, fun passed hpassed hless =>
      absurd hless (by simp [freeNumber]; omega)⟩
  | succ fuel ih =>
    unfold freeNumber
    by_cases hnumber : numberedId number ∈ taken
    · rw [if_pos (List.contains_iff_mem.mpr hnumber)]
      have hne : other ≠ number := by
        rintro rfl
        exact hother hnumber
      obtain ⟨hle, hfree, hbetween⟩ := @ih (number + 1) (by omega) (by omega)
      refine ⟨by omega, hfree, fun passed hpassed hless => ?_⟩
      by_cases heq : passed = number
      · rwa [heq]
      · exact hbetween passed (by omega) hless
    · rw [if_neg (by simpa using hnumber)]
      exact ⟨Nat.le_refl _, hnumber, fun passed hpassed hless => absurd hless (by omega)⟩

/-- The number that a node gets: the first free one behind those that have been counted. -/
structure Follows (taken : List String) (counted number : Nat) : Prop where
  less : counted < number
  free : Free taken number
  passed : ∀ other, counted < other → other < number → ¬Free taken other

theorem follows_freeNumber (taken : List String) (counted : Nat) :
    Follows taken counted (freeNumber taken (counted + 1) taken.length) := by
  obtain ⟨other, hlow, hhigh, hother⟩ := exists_numberedId_not_mem taken (counted + 1)
  obtain ⟨hle, hfree, hbetween⟩ := freeNumber_spec hlow hhigh hother
  exact ⟨hle, ⟨by omega, hfree⟩, fun passed hpassed hless hpassedFree =>
    hpassedFree.2 (hbetween passed hpassed hless)⟩

/-- The next number is the next free one, and there is one free number more up to it. -/
theorem Follows.count {taken : List String}
    {counted number : Nat} (h : Follows taken counted number) :
    Nat.nth (Free taken) (Nat.count (Free taken) (counted + 1)) = number ∧
      Nat.count (Free taken) (number + 1) = Nat.count (Free taken) (counted + 1) + 1 := by
  have hsame : Nat.count (Free taken) number = Nat.count (Free taken) (counted + 1) := by
    obtain ⟨steps, rfl⟩ := Nat.exists_eq_add_of_le (Nat.succ_le_of_lt h.less)
    have hnone : Nat.count (fun step => Free taken (counted + 1 + step)) steps = 0 := by
      rw [Nat.count_iff_forall_not]
      intro step hstep
      exact h.passed _ (by omega) (by omega)
    rw [Nat.count_add, hnone, Nat.add_zero]
  rw [← hsame, Nat.nth_count h.free, Nat.count_succ, if_pos h.free]
  exact ⟨rfl, rfl⟩

/-! ### The walk over the ids -/

/-- The ids that the nodes with the given ones have in the end, and the count after them. -/
def settleIds (taken : List String) : List String → Nat → List String × Nat
  | [], counted => ([], counted)
  | id :: rest, counted =>
    let (id, counted) := settleId taken id counted
    let (rest, counted) := settleIds taken rest counted
    (id :: rest, counted)

variable {taken : List String}

theorem settleIds_append (ids more : List String) (counted : Nat) :
    settleIds taken (ids ++ more) counted =
      ((settleIds taken ids counted).1 ++ (settleIds taken more (settleIds taken ids counted).2).1,
        (settleIds taken more (settleIds taken ids counted).2).2) := by
  induction ids generalizing counted with
  | nil => rfl
  | cons id rest ih => simp only [List.cons_append, settleIds, ih]

theorem settleId_of_empty (counted : Nat) :
    ∃ number,
      Follows taken counted number ∧ settleId taken "" counted = (numberedId number, number) :=
  ⟨_, follows_freeNumber taken counted, rfl⟩

theorem settleId_of_ne {id : String} (h : id ≠ "") (counted : Nat) :
    settleId taken id counted = (id, counted) :=
  if_neg h

/-- An id in the end is one that was given, or is numbered behind those that have been counted. -/
theorem mem_settleIds {ids : List String} {counted : Nat}
    {id : String} (h : id ∈ (settleIds taken ids counted).1) :
    (id ∈ ids ∧ id ≠ "") ∨ ∃ number,
      counted < number ∧ Free taken number ∧ id = numberedId number := by
  induction ids generalizing counted with
  | nil => exact absurd h List.not_mem_nil
  | cons first rest ih =>
    by_cases hfirst : first = ""
    · subst hfirst
      obtain ⟨number, hfollows, hnumber⟩ := @settleId_of_empty taken counted
      simp only [settleIds, hnumber] at h
      rcases List.mem_cons.mp h with rfl | hrest
      · exact .inr ⟨number, hfollows.less, hfollows.free, rfl⟩
      · rcases ih hrest with ⟨hmem, hne⟩ | ⟨other, hless, hother⟩
        · exact .inl ⟨List.mem_cons_of_mem _ hmem, hne⟩
        · exact .inr ⟨other, hfollows.less.trans hless, hother⟩
    · simp only [settleIds, settleId_of_ne hfirst] at h
      rcases List.mem_cons.mp h with rfl | hrest
      · exact .inl ⟨List.mem_cons_self, hfirst⟩
      · exact (ih hrest).imp_left fun hmem => ⟨List.mem_cons_of_mem _ hmem.1, hmem.2⟩

theorem nodup_settleIds {ids : List String} (htaken : ∀ id ∈ ids, id ≠ "" → id ∈ taken)
    (hnodup : (ids.filter (· ≠ "")).Nodup) (counted : Nat) :
    (settleIds taken ids counted).1.Nodup := by
  induction ids generalizing counted with
  | nil => exact List.nodup_nil
  | cons first rest ih =>
    rw [List.forall_mem_cons] at htaken
    by_cases hfirst : first = ""
    · subst hfirst
      obtain ⟨number, hfollows, hnumber⟩ := @settleId_of_empty taken counted
      simp only [settleIds, hnumber]
      refine List.nodup_cons.mpr ⟨fun hmem => ?_, ih htaken.2 (by simpa using hnodup) number⟩
      rcases mem_settleIds hmem with ⟨hgiven, hne⟩ | ⟨other, hless, -, heq⟩
      · exact hfollows.free.2 (htaken.2 _ hgiven hne)
      · exact absurd (numberedId_injective heq) hless.ne
    · rw [List.filter_cons_of_pos (by simpa using hfirst), List.nodup_cons] at hnodup
      simp only [settleIds, settleId_of_ne hfirst]
      refine List.nodup_cons.mpr ⟨fun hmem => ?_, ih htaken.2 hnodup.2 counted⟩
      rcases mem_settleIds hmem with ⟨hgiven, -⟩ | ⟨other, -, hfree, rfl⟩
      · exact hnodup.1 (List.mem_filter.mpr ⟨hgiven, by simpa using hfirst⟩)
      · exact hfree.2 (htaken.1 hfirst)

/-- The ids in the end, each from the one given in its place. The free numbers up to the count are
as many as the nodes that have been numbered before. -/
theorem getElem?_settleIds {ids : List String} {counted place : Nat}
    {id : String} (h : ids[place]? = some id) :
    (settleIds taken ids counted).1[place]? = some (if id = "" then numberedId (Nat.nth (Free taken)
      (Nat.count (Free taken) (counted + 1) + (ids.take place).count "")) else id) := by
  induction ids generalizing counted place with
  | nil => simp at h
  | cons first rest ih =>
    by_cases hfirst : first = ""
    · subst hfirst
      obtain ⟨number, hfollows, hnumber⟩ := @settleId_of_empty taken counted
      obtain ⟨hnth, hcount⟩ := hfollows.count
      simp only [settleIds, hnumber]
      cases place with
      | zero =>
        obtain rfl : "" = id := by simpa using h
        simp [hnth]
      | succ place =>
        rw [List.getElem?_cons_succ] at h ⊢
        rw [ih h, hcount, List.take_succ_cons, List.count_cons_self,
          Nat.add_right_comm, Nat.add_assoc]
    · simp only [settleIds, settleId_of_ne hfirst]
      cases place with
      | zero =>
        obtain rfl : first = id := by simpa using h
        simp [hfirst]
      | succ place =>
        rw [List.getElem?_cons_succ] at h ⊢
        rw [ih h, List.take_succ_cons, List.count_cons_of_ne hfirst]

/-! ### The walk over the nodes -/

namespace Node

mutual

theorem settle_ids (taken : List String) (node : Node) (counted : Nat) :
    settleIds taken (node.nodes.map id) counted =
      ((node.settle taken counted).1.nodes.map id, (node.settle taken counted).2) := by
  obtain ⟨id, kind, fields, inputs, statements, next, comment, disabled, mutation⟩ := node
  simp only [nodes, List.map_cons, List.map_append, settleIds, settleIds_append, settle,
    settleSlots_ids taken inputs, settleSlots_ids taken statements, settleChain_ids taken next]
termination_by structural node

theorem settleSlots_ids (taken : List String) (slots : List (String × Node)) (counted : Nat) :
    settleIds taken ((slotNodes slots).map id) counted =
      ((slotNodes (settleSlots taken slots counted).1).map id,
        (settleSlots taken slots counted).2) := by
  cases slots with
  | nil => rfl
  | cons entry rest =>
    obtain ⟨slot, node⟩ := entry
    simp only [slotNodes, List.map_append, settleIds_append, settleSlots, settle_ids taken node,
      settleSlots_ids taken rest]
termination_by structural slots

theorem settleChain_ids (taken : List String) (first : Option Node) (counted : Nat) :
    settleIds taken ((chainNodes first).map id) counted =
      ((chainNodes (settleChain taken first counted).1).map id,
        (settleChain taken first counted).2) := by
  cases first with
  | none => rfl
  | some node => simp only [chainNodes, settleChain, settle_ids taken node]
termination_by structural first

end

mutual

theorem settle_anonymous (taken : List String) (node : Node) (counted : Nat) :
    (node.settle taken counted).1.anonymous = node.anonymous := by
  obtain ⟨id, kind, fields, inputs, statements, next, comment, disabled, mutation⟩ := node
  simp only [settle, anonymous, settleSlots_anonymous taken inputs,
    settleSlots_anonymous taken statements, settleChain_anonymous taken next]
termination_by structural node

theorem settleSlots_anonymous (taken : List String) (slots : List (String × Node)) (counted : Nat) :
    anonymousSlots (settleSlots taken slots counted).1 = anonymousSlots slots := by
  cases slots with
  | nil => rfl
  | cons entry rest =>
    obtain ⟨slot, node⟩ := entry
    simp only [settleSlots, anonymousSlots, settle_anonymous taken node,
      settleSlots_anonymous taken rest]
termination_by structural slots

theorem settleChain_anonymous (taken : List String) (first : Option Node) (counted : Nat) :
    anonymousChain (settleChain taken first counted).1 = anonymousChain first := by
  cases first with
  | none => rfl
  | some node => simp only [settleChain, anonymousChain, settle_anonymous taken node]
termination_by structural first

end

mutual

/-- A node that has an id everywhere is left as it is. -/
theorem settle_of_named (taken : List String) (node : Node)
    (h : ∀ each ∈ node.nodes, each.id ≠ "") (counted : Nat) :
    node.settle taken counted = (node, counted) := by
  obtain ⟨id, kind, fields, inputs, statements, next, comment, disabled, mutation⟩ := node
  rw [nodes, List.forall_mem_cons, List.forall_mem_append, List.forall_mem_append] at h
  obtain ⟨hid, ⟨hinputs, hstatements⟩, hnext⟩ := h
  simp only [settle, settleId_of_ne hid, settleSlots_of_named taken inputs hinputs,
    settleSlots_of_named taken statements hstatements, settleChain_of_named taken next hnext]
termination_by structural node

theorem settleSlots_of_named (taken : List String) (slots : List (String × Node))
    (h : ∀ each ∈ slotNodes slots, each.id ≠ "") (counted : Nat) :
    settleSlots taken slots counted = (slots, counted) := by
  cases slots with
  | nil => rfl
  | cons entry rest =>
    obtain ⟨slot, node⟩ := entry
    rw [slotNodes, List.forall_mem_append] at h
    simp only [settleSlots, settle_of_named taken node h.1, settleSlots_of_named taken rest h.2]
termination_by structural slots

theorem settleChain_of_named (taken : List String) (first : Option Node)
    (h : ∀ each ∈ chainNodes first, each.id ≠ "") (counted : Nat) :
    settleChain taken first counted = (first, counted) := by
  cases first with
  | none => rfl
  | some node => simp only [settleChain, settle_of_named taken node h]
termination_by structural first

end

theorem settleAll_ids (taken : List String) (roots : List Node) (counted : Nat) :
    (settleIds taken ((roots.flatMap nodes).map id) counted).1 =
      ((settleAll taken roots counted).flatMap nodes).map id := by
  induction roots generalizing counted with
  | nil => rfl
  | cons root rest ih =>
    simp only [List.flatMap_cons, List.map_append, settleIds_append, settleAll,
      settle_ids taken root, ih]

theorem settleAll_anonymous (taken : List String) (roots : List Node) (counted : Nat) :
    (settleAll taken roots counted).map anonymous = roots.map anonymous := by
  induction roots generalizing counted with
  | nil => rfl
  | cons root rest ih => simp only [settleAll, List.map_cons, settle_anonymous taken root, ih]

theorem settleAll_of_named (taken : List String) {roots : List Node}
    (h : ∀ each ∈ roots.flatMap nodes, each.id ≠ "") (counted : Nat) :
    settleAll taken roots counted = roots := by
  induction roots generalizing counted with
  | nil => rfl
  | cons root rest ih =>
    rw [List.flatMap_cons, List.forall_mem_append] at h
    simp only [settleAll, settle_of_named taken root h.1, ih h.2]

end Node

namespace Workspace

variable {workspace settled : Workspace}

/-- The ids of all nodes, in the order in which the nodes are walked. -/
def ids (workspace : Workspace) : List String :=
  workspace.nodes.map Node.id

/-- Of the ids that repeat an earlier one, this is the first that the walk comes to. -/
def FirstRepeat (workspace : Workspace) (id : String) : Prop :=
  id ≠ "" ∧ ∃ before after, workspace.ids = before ++ id :: after ∧ id ∈ before ∧
    (before.filter (· ≠ "")).Nodup

/-- What is made of a workspace in which no id repeats. -/
structure Settled (workspace settled : Workspace) : Prop where
  /-- Nothing but ids has changed. -/
  same : settled.anonymous = workspace.anonymous
  named : ∀ id ∈ settled.ids, id ≠ ""
  distinct : settled.ids.Nodup
  kept : ∀ (place : Nat) (id : String),
    workspace.ids[place]? = some id → id ≠ "" → settled.ids[place]? = some id
  /-- A node behind so many others without id gets the free number behind so many
  other free ones. -/
  numbered : ∀ place : Nat, workspace.ids[place]? = some "" →
    let number := Nat.nth (Free workspace.givenIds) ((workspace.ids.take place).count "")
    Free workspace.givenIds number ∧ settled.ids[place]? = some (numberedId number)
  again : settled.settle = .ok settled

theorem settle_eq_error_iff {id : String} :
    workspace.settle = .error id ↔ firstRepeated [] workspace.givenIds = some id := by
  unfold settle
  cases firstRepeated [] workspace.givenIds <;> simp

theorem firstRepeated_givenIds_iff :
    firstRepeated [] workspace.givenIds = none ↔ workspace.givenIds.Nodup :=
  firstRepeated_eq_none_iff List.nodup_nil

theorem settle_eq_ok_iff : workspace.settle = .ok settled ↔ workspace.givenIds.Nodup ∧
    settled = { workspace with roots := Node.settleAll workspace.givenIds workspace.roots 0 } := by
  rw [← firstRepeated_givenIds_iff]
  unfold settle
  cases firstRepeated [] workspace.givenIds with
  | some id => simp
  | none =>
    simp only [Except.ok.injEq, true_and]
    exact eq_comm

theorem mem_givenIds {id : String} : id ∈ workspace.givenIds ↔ id ∈ workspace.ids ∧ id ≠ "" := by
  simp [givenIds, ids]

theorem nodup_givenIds_iff :
    workspace.givenIds.Nodup ↔ ∀ id, id ≠ "" → workspace.ids.count id ≤ 1 := by
  rw [List.nodup_iff_count_le_one]
  have hcount : ∀ id, id ≠ "" → workspace.givenIds.count id = workspace.ids.count id :=
    fun id hid => List.count_filter (by simpa using hid)
  constructor
  · intro h id hid
    rw [← hcount id hid]
    exact h id
  · intro h id
    by_cases hid : id = ""
    · have hnone : id ∉ workspace.givenIds := fun hmem => (mem_givenIds.mp hmem).2 hid
      rw [List.count_eq_zero_of_not_mem hnone]
      exact Nat.zero_le 1
    · rw [hcount id hid]
      exact h id hid

theorem firstRepeat_iff {id : String} :
    workspace.FirstRepeat id ↔ firstRepeated [] workspace.givenIds = some id := by
  rw [firstRepeated_eq_some_iff List.nodup_nil]
  simp only [List.nil_append]
  constructor
  · rintro ⟨hid, before, after, hids, hmem, hnodup⟩
    refine ⟨before.filter (· ≠ ""), after.filter (· ≠ ""), ?_,
      List.mem_filter.mpr ⟨hmem, by simpa using hid⟩, hnodup⟩
    show workspace.ids.filter (· ≠ "") = _
    rw [hids, List.filter_append, List.filter_cons_of_pos (by simpa using hid)]
  · rintro ⟨before, after, hgiven, hmem, hnodup⟩
    obtain ⟨front, back, hids, rfl, hback⟩ := List.filter_eq_append_iff.mp hgiven
    obtain ⟨unnamed, rest, rfl, hunnamed, hid, -⟩ := List.filter_eq_cons_iff.mp hback
    -- The nodes without id in front of `id` belong to those before it.
    have hnone : unnamed.filter (· ≠ "") = [] := List.filter_eq_nil_iff.mpr hunnamed
    refine ⟨by simpa using hid, front ++ unnamed, rest, ?_, ?_, ?_⟩
    · rw [List.append_assoc]
      exact hids
    · exact List.mem_append_left _ (List.mem_filter.mp hmem).1
    · rwa [List.filter_append, hnone, List.append_nil]

theorem ids_settle (h : workspace.settle = .ok settled) :
    settled.ids = (settleIds workspace.givenIds workspace.ids 0).1 := by
  obtain ⟨-, rfl⟩ := settle_eq_ok_iff.mp h
  exact (Node.settleAll_ids workspace.givenIds workspace.roots 0).symm

/-- A workspace whose nodes have ids of their own is settled. -/
theorem settle_of_named (hnamed : ∀ id ∈ workspace.ids, id ≠ "") (hdistinct : workspace.ids.Nodup) :
    workspace.settle = .ok workspace := by
  refine settle_eq_ok_iff.mpr ⟨hdistinct.filter _, ?_⟩
  have hroots : Node.settleAll workspace.givenIds workspace.roots 0 = workspace.roots :=
    Node.settleAll_of_named _
      (fun node hnode => hnamed node.id (List.mem_map.mpr ⟨node, hnode, rfl⟩)) 0
  rw [hroots]

/-- Settling fails exactly if two nodes bring along the same id, and tells the first
one that repeats. Otherwise the ids that are there stay, and the nodes without one get
the free numbers in their order. -/
theorem nodes_get_ids_of_their_own (workspace : Workspace) :
    ((∃ id, workspace.settle = .error id) ↔ ∃ id, id ≠ "" ∧ 2 ≤ workspace.ids.count id) ∧
    (∀ id, workspace.settle = .error id ↔ workspace.FirstRepeat id) ∧
    ∀ settled, workspace.settle = .ok settled → Settled workspace settled := by
  refine ⟨?_, fun id => settle_eq_error_iff.trans firstRepeat_iff.symm, fun settled h => ?_⟩
  · have hfails : (∃ id, workspace.settle = .error id) ↔ ¬workspace.givenIds.Nodup := by
      rw [← firstRepeated_givenIds_iff]
      simp only [settle_eq_error_iff]
      exact Option.ne_none_iff_exists'.symm
    rw [hfails, nodup_givenIds_iff]
    simp only [not_forall, not_le, exists_prop]
    rfl
  · have hids := ids_settle h
    obtain ⟨hnodup, hsettled⟩ := settle_eq_ok_iff.mp h
    have hnamed : ∀ id ∈ settled.ids, id ≠ "" := by
      intro id hid
      rw [hids] at hid
      rcases mem_settleIds hid with ⟨-, hne⟩ | ⟨number, -, -, rfl⟩
      · exact hne
      · exact numberedId_ne_empty number
    have hdistinct : settled.ids.Nodup := by
      rw [hids]
      exact nodup_settleIds (fun id hid hne => mem_givenIds.mpr ⟨hid, hne⟩) hnodup 0
    have hcount : Nat.count (Free workspace.givenIds) 1 = 0 := by
      rw [Nat.count_succ, Nat.count_zero, if_neg fun hfree => absurd hfree.1 (Nat.lt_irrefl 0)]
    refine ⟨?_, hnamed, hdistinct, ?_, ?_, settle_of_named hnamed hdistinct⟩
    · rw [hsettled]
      exact congrArg (Workspace.mk workspace.variableNames)
        (Node.settleAll_anonymous _ workspace.roots 0)
    · intro place id hplace hid
      rw [hids, getElem?_settleIds hplace, if_neg hid]
    · intro place hplace
      have hnumber := @getElem?_settleIds workspace.givenIds _ 0 _ _ hplace
      rw [if_pos rfl, Nat.zero_add, hcount, Nat.zero_add, ← hids] at hnumber
      exact ⟨Nat.nth_mem_of_infinite (infinite_free _) _, hnumber⟩

/-- An id that looks like a numbered one stands behind the nodes that would take it,
and in another workspace an id stands twice. -/
theorem ids_around_lookalike_are_settled :
    let second : Node := { kind := "text", id := "n1" }
    let first : Node := { kind := "text_print", inputs := [("TEXT", {})], next := some second }
    let workspace : Workspace := ⟨[], [first, { kind := "math_number" }]⟩
    let repeated : Workspace := ⟨[], [first, second]⟩
    (∃ settled, workspace.settle = .ok settled ∧ Settled workspace settled ∧
      settled.ids = ["n2", "n3", "n1", "n4"]) ∧
    repeated.settle = .error "n1" ∧ repeated.FirstRepeat "n1" := by
  intro second first workspace repeated
  refine ⟨?_, ?_⟩
  · have hsettle : workspace.settle = .ok _ := rfl
    exact ⟨_, hsettle, (nodes_get_ids_of_their_own workspace).2.2 _ hsettle, by decide⟩
  · have hsettle : repeated.settle = .error "n1" := rfl
    exact ⟨hsettle, ((nodes_get_ids_of_their_own repeated).2.1 "n1").mp hsettle⟩

end Workspace

end BlockSynth
