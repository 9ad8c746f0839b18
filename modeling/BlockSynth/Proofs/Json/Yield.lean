import BlockSynth.Json.Shape
import BlockSynth.Proofs.Catalog

/-! # What decoders answer with

Decoders are put together from decoders. What all of these answer with has a property if what each
of them answers with has it, or keeps a record that has it so.
-/
namespace BlockSynth.Json

variable {α β : Type} {good : α → Prop} {fine : β → Prop}

/-- Whatever is decoded is good. -/
def Yields (good : α → Prop) (decode : Json → Except Defect α) : Prop :=
  ∀ json value, decode json = .ok value → good value

theorem exists_of_bind_ok {step : Except Defect α} {next : α → Except Defect β} {result : β}
    (h : step >>= next = .ok result) : ∃ value, step = .ok value ∧ next value = .ok result := by
  cases step with
  | error defect => cases h
  | ok value => exact ⟨value, rfl, h⟩

theorem yields_true (decode : Json → Except Defect α) : Yields (fun _ => True) decode :=
  fun _ _ _ => trivial

theorem openWith_eq_ok {decoder : Option β} {found : β} (h : openWith decoder = .ok found) :
    found ∈ decoder := by
  cases decoder with
  | none => cases h
  | some decode => exact congrArg some (Except.ok.inj h)

theorem Yields.asOption {decode : Json → Except Defect α} (h : Yields good decode) :
    Yields (fun found => ∀ value ∈ found, good value) (asOption decode) := by
  intro json found hrun value hvalue
  obtain rfl : found = some value := hvalue
  unfold Json.asOption at hrun
  split at hrun
  · cases Except.ok.inj hrun
  · cases hdecode : decode json with
    | error defect =>
      rw [hdecode] at hrun
      cases hrun
    | ok result =>
      rw [hdecode] at hrun
      obtain rfl := Option.some.inj (Except.ok.inj hrun)
      exact h json result hdecode

theorem Yields.mapM {decode : Json → Except Defect α} (h : Yields good decode) {items : List Json}
    {found : List α} (hrun : items.mapM decode = .ok found) : ∀ value ∈ found, good value := by
  induction items generalizing found with
  | nil =>
    obtain rfl := Except.ok.inj hrun
    exact List.forall_mem_nil _
  | cons item rest ih =>
    rw [List.mapM_cons] at hrun
    obtain ⟨first, hfirst, hmore⟩ := exists_of_bind_ok hrun
    obtain ⟨others, hothers, hdone⟩ := exists_of_bind_ok hmore
    obtain rfl := Except.ok.inj hdone
    exact List.forall_mem_cons.mpr ⟨h item first hfirst, ih hothers⟩

theorem Yields.asList {decoder : Option (Json → Except Defect α)}
    (h : ∀ decode ∈ decoder, Yields good decode) :
    Yields (fun found => ∀ value ∈ found, good value) (asList decoder) := by
  intro json found hrun
  cases json with
  | array items breach =>
    obtain ⟨decode, hopen, hrun⟩ := exists_of_bind_ok hrun
    obtain ⟨values, hvalues, hrun⟩ := exists_of_bind_ok hrun
    obtain ⟨-, -, hdone⟩ := exists_of_bind_ok hrun
    obtain rfl := Except.ok.inj hdone
    exact (h decode (openWith_eq_ok hopen)).mapM hvalues
  | _ => cases hrun

theorem Yields.sortMembers {decode : Json → Except Defect α} (h : Yields good decode)
    {found sorted : List (String × α)} {members : List (JsonText × Json)}
    (hrun : sortMembers decode found members = .ok sorted)
    (hfound : ∀ entry ∈ found, good entry.2) :
    ∀ entry ∈ sorted, good entry.2 := by
  induction members generalizing found with
  | nil =>
    obtain rfl := Except.ok.inj hrun
    exact hfound
  | cons member rest ih =>
    obtain ⟨name, item⟩ := member
    cases name with
    | none => cases hrun
    | some name =>
      obtain ⟨value, hvalue, hrest⟩ := exists_of_bind_ok hrun
      refine ih hrest fun entry hentry => ?_
      rcases Keyed.mem_insert hentry with rfl | hold
      · exact h item value hvalue
      · exact hfound entry hold

theorem Yields.asMap {decoder : Option (Json → Except Defect α)}
    (h : ∀ decode ∈ decoder, Yields good decode) :
    Yields (fun found => ∀ entry ∈ found, good entry.2) (asMap decoder) := by
  intro json found hrun
  cases json with
  | object members breach =>
    obtain ⟨decode, hopen, hrun⟩ := exists_of_bind_ok hrun
    obtain ⟨sorted, hsorted, hrun⟩ := exists_of_bind_ok hrun
    obtain ⟨-, -, hdone⟩ := exists_of_bind_ok hrun
    obtain rfl := Except.ok.inj hdone
    exact (h decode (openWith_eq_ok hopen)).sortMembers hsorted (List.forall_mem_nil _)
  | _ => cases hrun

/-- A member that leaves a good record good. -/
def Member.Keeps (good : α → Prop) (member : Member α) : Prop :=
  Yields (fun change => ∀ record, good record → good (change record)) member.decode

theorem Member.keeps_of {name : String} {decode : Json → Except Defect β}
    {put : β → α → α} (h : Yields fine decode)
    (hput : ∀ value record, fine value → good record → good (put value record)) :
    (Member.of name decode put).Keeps good := by
  intro json change hrun record hrecord
  cases hdecode : decode json with
  | error defect => simp [Member.of, hdecode, Except.map] at hrun
  | ok value =>
    simp only [Member.of, hdecode, Except.map, Except.ok.injEq] at hrun
    subst hrun
    exact hput value record (h json value hdecode) hrecord

variable {known : List (Member α)}

theorem takeMembers_keeps (h : ∀ member ∈ known, member.Keeps good) {strangers : Strangers}
    {met : List String} {record taken : α} {members : List (JsonText × Json)}
    (hrun : takeMembers known strangers met record members = .ok taken)
    (hrecord : good record) : good taken := by
  induction members generalizing met record with
  | nil =>
    obtain rfl := Except.ok.inj hrun
    exact hrecord
  | cons member rest ih =>
    obtain ⟨name, item⟩ := member
    cases name with
    | none => cases hrun
    | some name =>
      unfold takeMembers at hrun
      split at hrun
      · rename_i member hfind
        split at hrun
        · cases hrun
        · obtain ⟨change, hchange, hrest⟩ := exists_of_bind_ok hrun
          exact ih hrest
            (h member (List.mem_of_find?_eq_some hfind) item change hchange record hrecord)
      · obtain ⟨-, -, hrest⟩ := exists_of_bind_ok hrun
        exact ih hrest hrecord
      · cases hrun

theorem takeItems_keeps (h : ∀ member ∈ known, member.Keeps good) {record taken : α}
    {items : List Json} (hrun : takeItems known record items = .ok taken)
    (hrecord : good record) : good taken := by
  induction items generalizing known record with
  | nil =>
    unfold takeItems at hrun
    obtain rfl := Except.ok.inj hrun
    exact hrecord
  | cons item rest ih =>
    cases known with
    | nil => cases hrun
    | cons member more =>
      rw [List.forall_mem_cons] at h
      obtain ⟨change, hchange, hrest⟩ := exists_of_bind_ok hrun
      exact ih h.2 hrest (h.1 item change hchange record hrecord)

theorem Yields.asRecord {decoder : Option (List (Member α))} {start : α}
    (h : ∀ known ∈ decoder, ∀ member ∈ known, member.Keeps good)
    (strangers : Strangers) (hstart : good start) :
    Yields good (asRecord decoder strangers start) := by
  intro json record hrun
  cases json with
  | object members breach =>
    obtain ⟨known, hopen, hrun⟩ := exists_of_bind_ok hrun
    obtain ⟨taken, htaken, hrun⟩ := exists_of_bind_ok hrun
    obtain ⟨-, -, hdone⟩ := exists_of_bind_ok hrun
    obtain rfl := Except.ok.inj hdone
    exact takeMembers_keeps (h known (openWith_eq_ok hopen)) htaken hstart
  | array items breach =>
    obtain ⟨known, hopen, hrun⟩ := exists_of_bind_ok hrun
    obtain ⟨taken, htaken, hrun⟩ := exists_of_bind_ok hrun
    obtain ⟨-, -, hdone⟩ := exists_of_bind_ok hrun
    obtain rfl := Except.ok.inj hdone
    exact takeItems_keeps (h known (openWith_eq_ok hopen)) htaken hstart
  | _ => cases hrun

end BlockSynth.Json
