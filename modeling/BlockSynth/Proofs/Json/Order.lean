import BlockSynth.Json.Shape
import Mathlib.Data.List.Nodup
import Mathlib.Data.List.Pairwise
import Mathlib.Data.List.Perm.Basic
import Mathlib.Data.String.Basic

/-! # The order of members

Members of an object come into a map or a record one after the other. What the ones of different
names do is the same in either order, so an object is decoded alike however its members are ordered,
and a value is decoded alike however the objects in it are.
-/
namespace BlockSynth

theorem Keyed.insert_comm {α : Type} {name other : String}
    (h : name ≠ other) (value another : α) (entries : List (String × α)) :
    insert name value (insert other another entries) =
      insert other another (insert name value entries) := by
  have hlt : ∀ {name other : String}, name < other → ∀ value another : α,
      insert name value (insert other another entries) =
        insert other another (insert name value entries) := by
    intro name other hless value another
    have hgreater : ¬other < name := hless.asymm
    induction entries with
    | nil => simp [insert, hless, hgreater, hless.ne']
    | cons entry rest ih =>
      obtain ⟨first, kept⟩ := entry
      rcases lt_trichotomy other first with hother | rfl | hother
      · have hname := hless.trans hother
        simp [insert, hother, hname, hless, hgreater, hless.ne']
      · simp [insert, hless, hgreater, hless.ne']
      · rcases lt_trichotomy name first with hname | rfl | hname
        · simp [insert, hother.asymm, hother.ne', hname, hgreater, hless.ne']
        · simp [insert, hgreater, hless.ne']
        · simp [insert, hother.asymm, hother.ne', hname.asymm, hname.ne', ih]
  rcases lt_or_gt_of_ne h with hless | hgreater
  · exact hlt hless value another
  · exact (hlt hgreater another value).symm

namespace Json

/-- The same value up to the order of members, at any depth; no object repeats a name. Of a number
that is written with a point or an exponent only the value counts. -/
inductive Rearranged : Json → Json → Prop
  | null : Rearranged .null .null
  | bool (value : Bool) : Rearranged (.bool value) (.bool value)
  | number {value other : Decimal} {plain : Bool} : (plain = true → value = other) →
    value.toBinary64 = other.toBinary64 → Rearranged (.number value plain) (.number other plain)
  | text (value : JsonText) : Rearranged (.text value) (.text value)
  | array {items others : List Json} : items.length = others.length →
    (∀ (place : Nat) (item other : Json), items[place]? = some item → others[place]? = some other →
      Rearranged item other) →
    Rearranged (.array items none) (.array others none)
  | object {members others : List (JsonText × Json)} : (members.map Prod.fst).Nodup →
    (members.map Prod.fst).Perm (others.map Prod.fst) →
    (∀ name item other, (name, item) ∈ members → (name, other) ∈ others → Rearranged item other) →
    Rearranged (.object members none) (.object others none)

/-- Rearranged values are both refused, or decoded to the same. -/
def Respectful {α : Type} (decode : Json → Except Defect α) : Prop :=
  ∀ ⦃value other : Json⦄, value.Rearranged other → (decode value).toOption = (decode other).toOption

/-! ### Steps that may be refused -/

section Options

variable {α β : Type}

@[simp] theorem toOption_ok (result : α) :
    (Except.ok result : Except Defect α).toOption = some result := rfl

@[simp] theorem toOption_error (defect : Defect) :
    (Except.error defect : Except Defect α).toOption = none := rfl

@[simp] theorem toOption_pure (result : α) :
    (pure result : Except Defect α).toOption = some result := rfl

@[simp] theorem toOption_throw (defect : Defect) :
    (throw defect : Except Defect α).toOption = none := rfl

@[simp] theorem toOption_bind (step : Except Defect α) (next : α → Except Defect β) :
    (step >>= next).toOption = step.toOption.bind fun result => (next result).toOption := by
  cases step <;> rfl

@[simp] theorem toOption_map (step : Except Defect α) (f : α → β) :
    (step.map f).toOption = step.toOption.map f := by
  cases step <;> rfl

@[simp] theorem toOption_functor (step : Except Defect α) (f : α → β) :
    (f <$> step).toOption = step.toOption.map f :=
  toOption_map step f

end Options

/-! ### Members -/

variable {α β : Type}

/-- Steps over the members of an object that do not depend on the order of those with
different names. -/
theorem foldl_rearranged {step : β → JsonText × Json → β}
    {members others : List (JsonText × Json)} (hnodup : (members.map Prod.fst).Nodup)
    (hnames : (members.map Prod.fst).Perm (others.map Prod.fst))
    (hcomm : ∀ member other : JsonText × Json, member.1 ≠ other.1 → ∀ state,
      step (step state member) other = step (step state other) member)
    (hvalues : ∀ name item other, (name, item) ∈ members → (name, other) ∈ others → ∀ state,
      step state (name, item) = step state (name, other)) (state : β) :
    members.foldl step state = others.foldl step state := by
  induction others generalizing members state with
  | nil =>
    have hnil : members = [] := by simpa using hnames.eq_nil
    rw [hnil]
  | cons first rest ih =>
    obtain ⟨name, other⟩ := first
    obtain ⟨⟨found, item⟩, hitem, hfound⟩ := List.mem_map.mp (hnames.mem_iff.mpr List.mem_cons_self)
    obtain rfl : found = name := hfound
    obtain ⟨before, after, rfl⟩ := List.append_of_mem hitem
    -- The member of the name that comes first in the other object may be taken up first.
    have hmiddle : (before ++ (found, item) :: after).Perm ((found, item) :: (before ++ after)) :=
      List.perm_middle
    have hfirst : (before ++ (found, item) :: after).foldl step state =
        ((found, item) :: (before ++ after)).foldl step state := by
      refine hmiddle.foldl_eq' (fun member hmember other hother state => ?_) state
      by_cases hname : member.1 = other.1
      · rw [List.inj_on_of_nodup_map hnodup hmember hother hname]
      · exact hcomm member other hname state
    have hapart := (hmiddle.map Prod.fst).nodup_iff.mp hnodup
    have hsame := ((hmiddle.map Prod.fst).symm.trans hnames).cons_inv
    have hrest : ∀ member ∈ before ++ after, member ∈ before ++ (found, item) :: after :=
      fun member hmember => hmiddle.mem_iff.mpr (List.mem_cons_of_mem _ hmember)
    rw [hfirst, List.foldl_cons, List.foldl_cons, hvalues found item other hitem List.mem_cons_self]
    refine ih (List.nodup_cons.mp hapart).2 hsame (fun name item other hmember hother => ?_) _
    exact hvalues name item other (hrest _ hmember) (List.mem_cons_of_mem _ hother)

/-! ### Maps -/

/-- Take a member up into a map, unless it or one before it is refused. -/
def sortStep (decode : Json → Except Defect α)
    (found : Option (List (String × α))) (member : JsonText × Json) :
    Option (List (String × α)) := do
  return Keyed.insert (← member.1) (← (decode member.2).toOption) (← found)

theorem sortMembers_eq_foldl (decode : Json → Except Defect α) (found : List (String × α))
    (members : List (JsonText × Json)) :
    (sortMembers decode found members).toOption = members.foldl (sortStep decode) (some found) := by
  have hnone : ∀ members : List (JsonText × Json), members.foldl (sortStep decode) none = none := by
    refine List.foldl_fixed' fun member => ?_
    unfold sortStep
    cases member.1 <;> cases (decode member.2).toOption <;> rfl
  induction members generalizing found with
  | nil => rfl
  | cons member rest ih =>
    obtain ⟨name, item⟩ := member
    rw [List.foldl_cons]
    cases name with
    | none => exact (hnone rest).symm
    | some name =>
      rw [sortMembers, toOption_bind]
      cases hitem : (decode item).toOption with
      | none => simp [sortStep, hitem, hnone]
      | some value => simp [sortStep, hitem, ih]

theorem Respectful.asMap {decoder : Option (Json → Except Defect α)}
    (h : ∀ decode ∈ decoder, Respectful decode) : Respectful (asMap decoder) := by
  intro value other hsame
  cases hsame with
  | object hnodup hnames hvalues =>
    rename_i members others
    cases decoder with
    | none => rfl
    | some decode =>
      have hfold : (sortMembers decode [] members).toOption =
          (sortMembers decode [] others).toOption := by
        rw [sortMembers_eq_foldl, sortMembers_eq_foldl]
        refine foldl_rearranged hnodup hnames ?_ ?_ _
        · rintro ⟨name, item⟩ ⟨name', item'⟩ hne found
          unfold sortStep
          cases name <;> cases name' <;> cases (decode item).toOption
            <;> cases (decode item').toOption <;>
            cases found <;> try rfl
          rename_i name name' value value' found
          have hne : name ≠ name' := fun heq => hne (congrArg some heq)
          exact congrArg some (Keyed.insert_comm hne.symm value' value found)
        · intro name item other hmember hother found
          unfold sortStep
          rw [h decode rfl (hvalues name item other hmember hother)]
      simpa [Json.asMap, openWith, close] using hfold
  | _ => rfl

/-! ### Lists -/

theorem forall₂_rearranged {items others : List Json} (hlength : items.length = others.length)
    (h : ∀ (place : Nat) (item other : Json),
      items[place]? = some item → others[place]? = some other → Rearranged item other) :
    List.Forall₂ Rearranged items others := by
  refine List.forall₂_iff_get.mpr ⟨hlength, fun place hitem hother => ?_⟩
  exact h place _ _ (List.getElem?_eq_getElem hitem) (List.getElem?_eq_getElem hother)

theorem Respectful.asList {decoder : Option (Json → Except Defect α)}
    (h : ∀ decode ∈ decoder, Respectful decode) : Respectful (asList decoder) := by
  intro value other hsame
  cases hsame with
  | array hlength hitems =>
    rename_i items others
    cases decoder with
    | none => rfl
    | some decode =>
      have hforall := forall₂_rearranged hlength hitems
      have hlist : (items.mapM decode).toOption = (others.mapM decode).toOption := by
        clear hlength hitems
        induction hforall with
        | nil => rfl
        | cons hitem _ ih => simp [h decode rfl hitem, ih]
      simpa [Json.asList, openWith, close] using hlist
  | _ => rfl

/-! ### Values that are passed over -/

/-- A value that is rearranged can be passed over. -/
theorem Rearranged.pass {value other : Json} (h : value.Rearranged other) :
    value.pass = .ok () ∧ other.pass = .ok () := by
  have hitems : ∀ items : List Json,
      (∀ item ∈ items, item.pass = .ok ()) → passItems items = .ok () := by
    intro items hall
    induction items with
    | nil => rfl
    | cons item rest ih =>
      rw [List.forall_mem_cons] at hall
      rw [passItems, hall.1]
      exact ih hall.2
  have hmembers : ∀ members : List (JsonText × Json),
      (∀ member ∈ members, member.2.pass = .ok ()) → passMembers members = .ok () := by
    intro members hall
    induction members with
    | nil => rfl
    | cons member rest ih =>
      rw [List.forall_mem_cons] at hall
      rw [passMembers, hall.1]
      exact ih hall.2
  induction h with
  | null => exact ⟨rfl, rfl⟩
  | bool value => exact ⟨rfl, rfl⟩
  | number _ _ => exact ⟨rfl, rfl⟩
  | text value => exact ⟨rfl, rfl⟩
  | @array items others hlength _ ih =>
    have hfirst : passItems items = .ok () := by
      refine hitems items fun item hitem => ?_
      obtain ⟨place, hplace, rfl⟩ := List.getElem_of_mem hitem
      exact (ih place _ _ (List.getElem?_eq_getElem hplace)
        (List.getElem?_eq_getElem (hlength ▸ hplace))).1
    have hsecond : passItems others = .ok () := by
      refine hitems others fun other hother => ?_
      obtain ⟨place, hplace, rfl⟩ := List.getElem_of_mem hother
      exact (ih place _ _ (List.getElem?_eq_getElem (hlength ▸ hplace))
        (List.getElem?_eq_getElem hplace)).2
    rw [Json.pass, Json.pass, hfirst, hsecond]
    exact ⟨rfl, rfl⟩
  | @object members others _ hnames _ ih =>
    have hfirst : passMembers members = .ok () := by
      refine hmembers members fun member hmember => ?_
      have hname := hnames.mem_iff.mp (List.mem_map_of_mem hmember)
      obtain ⟨other, hother, heq⟩ := List.mem_map.mp hname
      exact (ih member.1 member.2 other.2 hmember (heq ▸ hother)).1
    have hsecond : passMembers others = .ok () := by
      refine hmembers others fun other hother => ?_
      have hname := hnames.mem_iff.mpr (List.mem_map_of_mem hother)
      obtain ⟨member, hmember, heq⟩ := List.mem_map.mp hname
      exact (ih other.1 member.2 other.2 (heq ▸ hmember) hother).2
    rw [Json.pass, Json.pass, hfirst, hsecond]
    exact ⟨rfl, rfl⟩

/-! ### Records -/

/-- What two members make of a record is the same in either order. -/
def Member.Commute (member other : Member α) : Prop :=
  ∀ json json' change change', member.decode json = .ok change → other.decode json' = .ok change' →
    ∀ record, change (change' record) = change' (change record)

/-- Members that take up rearranged values alike, whatever has been taken up before them. -/
structure Orderly (known : List (Member α)) : Prop where
  respectful : ∀ member ∈ known, Respectful member.decode
  commute : known.Pairwise Member.Commute

/-- What a member makes of a record. -/
def change (known : List (Member α)) (strangers : Strangers) (name : String)
    (item : Json) : Option (α → α) :=
  match known.find? (·.name = name), strangers with
  | some member, _ => (member.decode item).toOption
  | none, .ignored => item.pass.toOption.map fun _ => id
  | none, .refused => none

theorem change_of_find? {known : List (Member α)} {name : String} {member : Member α}
    (h : known.find? (·.name = name) = some member) (strangers : Strangers) (item : Json) :
    change known strangers name item = (member.decode item).toOption := by
  simp [change, h]

theorem change_of_not_find? {known : List (Member α)} {name : String}
    (h : known.find? (·.name = name) = none) (strangers : Strangers) (item : Json) :
    change known strangers name item =
      if strangers = .ignored then item.pass.toOption.map fun _ => id else none := by
  cases strangers <;> simp [change, h]

def takeStep (known : List (Member α)) (strangers : Strangers)
    (record : Option α) (member : JsonText × Json) :
    Option α := do
  return (← change known strangers (← member.1) member.2) (← record)

theorem takeMembers_eq_foldl (known : List (Member α)) (strangers : Strangers) {met : List String}
    {members : List (JsonText × Json)} (hnodup : (members.map Prod.fst).Nodup)
    (hmet : ∀ name ∈ met, some name ∉ members.map Prod.fst) (record : α) :
    (takeMembers known strangers met record members).toOption =
      members.foldl (takeStep known strangers) (some record) := by
  have hnone : ∀ members : List (JsonText × Json),
      members.foldl (takeStep known strangers) none = none :=
    List.foldl_fixed' fun member => by simp [takeStep]
  induction members generalizing met record with
  | nil => rfl
  | cons member rest ih =>
    obtain ⟨name, item⟩ := member
    rw [List.map_cons, List.nodup_cons] at hnodup
    rw [List.foldl_cons]
    cases name with
    | none => exact (hnone rest).symm
    | some name =>
      have hfresh : name ∉ met := fun hmem => hmet name hmem List.mem_cons_self
      have hrest : ∀ name ∈ met, some name ∉ rest.map Prod.fst :=
        fun name hmem hname => hmet name hmem (List.mem_cons_of_mem _ hname)
      unfold takeMembers
      cases hfind : known.find? (·.name = name) with
      | some member =>
        have hmore : ∀ other ∈ name :: met, some other ∉ rest.map Prod.fst :=
          List.forall_mem_cons.mpr ⟨hnodup.1, hrest⟩
        cases hitem : (member.decode item).toOption with
        | none => simp [takeStep, change, hfind, hfresh, hitem, hnone]
        | some change' => simp [takeStep, change, hfind, hfresh, hitem, ih hnodup.2 hmore]
      | none =>
        cases strangers with
        | ignored =>
          cases hitem : item.pass.toOption with
          | none => simp [takeStep, change, hfind, hitem, hnone]
          | some _ => simp [takeStep, change, hfind, hitem, ih hnodup.2 hrest]
        | refused => simp [takeStep, change, hfind, hnone]

theorem Orderly.change_eq {known : List (Member α)} (h : Orderly known) (strangers : Strangers)
    (name : String) {item other : Json} (hsame : item.Rearranged other) :
    change known strangers name item = change known strangers name other := by
  cases hfind : known.find? (·.name = name) with
  | some member =>
    rw [change_of_find? hfind, change_of_find? hfind]
    exact h.respectful member (List.mem_of_find?_eq_some hfind) hsame
  | none => rw [change_of_not_find? hfind, change_of_not_find? hfind, hsame.pass.1, hsame.pass.2]

theorem Orderly.change_comm {known : List (Member α)} (h : Orderly known) (strangers : Strangers)
    {name name' : String} (hne : name ≠ name') {item item' : Json} {first second : α → α}
    (hfirst : change known strangers name item = some first)
    (hsecond : change known strangers name' item' = some second) (record : α) :
    first (second record) = second (first record) := by
  -- A member that is passed over leaves the record as it is.
  have hknown : ∀ {name : String} {item : Json} {change' : α → α},
      change known strangers name item = some change' → change' = id ∨
        ∃ member ∈ known, member.name = name ∧ member.decode item = .ok change' := by
    intro name item change' hchange
    cases hfind : known.find? (·.name = name) with
    | some member =>
      rw [change_of_find? hfind] at hchange
      refine .inr ⟨member, List.mem_of_find?_eq_some hfind,
        by simpa using List.find?_some hfind, ?_⟩
      cases hitem : member.decode item with
      | ok found =>
        rw [hitem] at hchange
        exact congrArg Except.ok (Option.some.inj hchange)
      | error defect => simp [hitem] at hchange
    | none =>
      rw [change_of_not_find? hfind] at hchange
      split at hchange
      · obtain ⟨-, -, rfl⟩ := Option.map_eq_some_iff.mp hchange
        exact .inl rfl
      · simp at hchange
  rcases hknown hfirst with rfl | ⟨member, hmember, rfl, hitem⟩
  · rfl
  · rcases hknown hsecond with rfl | ⟨other, hother, rfl, hitem'⟩
    · rfl
    · have hsymm : Std.Symm (Member.Commute (α := α)) :=
        ⟨fun _ _ hcomm json json' change change' hjson hjson' record =>
          (hcomm json' json change' change hjson' hjson record).symm⟩
      have hapart : member ≠ other := fun heq => hne (congrArg Member.name heq)
      exact h.commute.forall hmember hother hapart item item' first second hitem hitem' record

theorem Orderly.takeMembers_eq {known : List (Member α)} (h : Orderly known) (strangers : Strangers)
    (start : α) {members others : List (JsonText × Json)} (hnodup : (members.map Prod.fst).Nodup)
    (hnames : (members.map Prod.fst).Perm (others.map Prod.fst))
    (hvalues : ∀ name item other,
      (name, item) ∈ members → (name, other) ∈ others → item.Rearranged other) :
    (takeMembers known strangers [] start members).toOption =
      (takeMembers known strangers [] start others).toOption := by
  have hother := hnames.nodup_iff.mp hnodup
  rw [takeMembers_eq_foldl known strangers hnodup (List.forall_mem_nil _),
    takeMembers_eq_foldl known strangers hother (List.forall_mem_nil _)]
  refine foldl_rearranged hnodup hnames ?_ ?_ _
  · rintro ⟨name, item⟩ ⟨name', item'⟩ hne record
    unfold takeStep
    cases name with
    | none => simp
    | some name =>
      cases name' with
      | none => simp
      | some name' =>
        have hne : name ≠ name' := fun heq => hne (congrArg some heq)
        cases hfirst : change known strangers name item with
        | none => simp [hfirst]
        | some first =>
          cases hsecond : change known strangers name' item' with
          | none => simp [hfirst, hsecond]
          | some second =>
            cases record with
            | none => simp
            | some record => simp [hfirst, hsecond, h.change_comm strangers hne hfirst hsecond]
  · intro name item other hmember hother record
    unfold takeStep
    cases name with
    | none => rfl
    | some name => simp [h.change_eq strangers name (hvalues _ item other hmember hother)]

theorem Orderly.takeItems_eq {known : List (Member α)} (h : Orderly known) (start : α)
    {items others : List Json} (hitems : List.Forall₂ Rearranged items others) :
    (takeItems known start items).toOption = (takeItems known start others).toOption := by
  have hrespectful := h.respectful
  clear h
  induction hitems generalizing known start with
  | nil => cases known <;> rfl
  | cons hitem _ ih =>
    cases known with
    | nil => rfl
    | cons member known =>
      rw [List.forall_mem_cons] at hrespectful
      simp only [takeItems, toOption_bind, hrespectful.1 hitem]
      exact congrArg _ (funext fun change => ih (change start) hrespectful.2)

/-- A record that is given as an object or as an array. -/
theorem Respectful.asRecord {decoder : Option (List (Member α))}
    (h : ∀ known ∈ decoder, Orderly known) (strangers : Strangers) (start : α) :
    Respectful (asRecord decoder strangers start) := by
  intro value other hsame
  cases hsame with
  | object hnodup hnames hvalues =>
    cases decoder with
    | none => rfl
    | some known =>
      simpa [Json.asRecord, openWith, close]
        using (h known rfl).takeMembers_eq strangers start hnodup hnames hvalues
  | array hlength hitems =>
    cases decoder with
    | none => rfl
    | some known =>
      have hforall := forall₂_rearranged hlength hitems
      simpa [Json.asRecord, openWith, close] using (h known rfl).takeItems_eq start hforall
  | _ => rfl

theorem Member.respectful_of {decode : Json → Except Defect β} (h : Respectful decode)
    (name : String) (put : β → α → α) : Respectful (Member.of name decode put).decode := by
  intro value other hsame
  rw [Member.of, toOption_map, toOption_map, h hsame]

theorem Member.commute_of {γ : Type} {put : β → α → α} {put' : γ → α → α}
    (h : ∀ value value' record, put value (put' value' record) = put' value' (put value record))
    (name name' : String) (decode : Json → Except Defect β) (decode' : Json → Except Defect γ) :
    (Member.of name decode put).Commute (Member.of name' decode' put') := by
  intro json json' change change' hchange hchange' record
  cases hvalue : decode json with
  | error defect => simp [Member.of, hvalue, Except.map] at hchange
  | ok value =>
    cases hvalue' : decode' json' with
    | error defect => simp [Member.of, hvalue', Except.map] at hchange'
    | ok value' =>
      obtain rfl : put value = change := by simpa [Member.of, hvalue, Except.map] using hchange
      obtain rfl : put' value' = change' := by simpa [Member.of, hvalue', Except.map] using hchange'
      exact h value value' record

/-! ### Single values -/

theorem respectful_asText : Respectful asText := by
  intro value other hsame
  cases hsame <;> rfl

theorem respectful_asBool : Respectful asBool := by
  intro value other hsame
  cases hsame <;> rfl

theorem respectful_asCount : Respectful asCount := by
  intro value other hsame
  cases hsame with
  | @number value other plain hplain =>
    cases plain with
    | true => rw [hplain rfl]
    | false => rfl
  | _ => rfl

theorem Respectful.asOption {decode : Json → Except Defect α} (h : Respectful decode) :
    Respectful (asOption decode) := by
  intro value other hsame
  have hmap : ((decode value).map some).toOption = ((decode other).map some).toOption := by
    rw [toOption_map, toOption_map, h hsame]
  cases hsame with
  | null => rfl
  | _ => exact hmap

/-- What holds of a decoder at every depth holds of the one that is left there, if any. -/
theorem forall_mem_inside {decoder : Nat → β} {good : β → Prop}
    (h : ∀ depth, good (decoder depth)) (depth : Nat) :
    ∀ found ∈ inside decoder depth, good found := by
  intro found hfound
  cases depth with
  | zero => exact absurd hfound (Option.not_mem_none _)
  | succ depth =>
    obtain rfl := Option.mem_some_iff.mp hfound
    exact h depth

theorem respectful_asTexts (depth : Nat) : Respectful (asTexts depth) :=
  Respectful.asList (forall_mem_inside (fun _ => respectful_asText) depth)

end Json

end BlockSynth
