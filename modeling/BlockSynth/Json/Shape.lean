import BlockSynth.Json.Value
import BlockSynth.Keyed

/-! # Looking at documents

A value is decoded by looking at it, from its front to its end, up to the first defect. Only what is
looked at counts: members nobody knows are passed over and may hold anything. A looked-at number has
to be finite, a looked-at string well-formed, and looked-at containers nest to a bounded depth, of
which every decoder is told how much is left.
-/
namespace BlockSynth.Json

-- Powers of numbers are the ones of the core library, whatever else is imported.
attribute [local instance (high)] instPowNat

/-- How many containers may be open at once. -/
def depthLimit : Nat := 127

def isFinite (value : Decimal) : Bool :=
  match value.toBinary64 with
  | .finite .. => true
  | _ => false

/-- What is wrong with a value of another shape than the one asked for. It is looked at as far as
needed to tell what it is. -/
def reject : Json → Defect
  | number value _ => if isFinite value then .misshapen else .malformed
  | text none => .malformed
  | broken breach => breach.looking
  | _ => .misshapen

/-- Look at the end of a container. -/
def close : Option Breach → Except Defect Unit
  | none => .ok ()
  | some breach => .error breach.looking

/-- The depth left inside a container. -/
def enter : Nat → Except Defect Nat
  | 0 => .error .malformed
  | depth + 1 => .ok depth

/-- How to decode what stands in a container, given how to do so at every depth;
nothing if no container may be opened. -/
def inside {β : Type} (decoder : Nat → β) : Nat → Option β
  | 0 => none
  | depth + 1 => some (decoder depth)

/-- Open a container of the shape that is asked for. -/
def openWith {β : Type} : Option β → Except Defect β
  | none => .error .malformed
  | some decoder => .ok decoder

def passEnd : Option Breach → Except Defect Unit
  | none => .ok ()
  | some breach => .error breach.passing

mutual

/-- Pass over a value. -/
def pass : Json → Except Defect Unit
  | array items breach => do
    passItems items
    passEnd breach
  | object members breach => do
    passMembers members
    passEnd breach
  | broken breach => .error breach.passing
  | _ => .ok ()
termination_by structural json => json

def passItems : List Json → Except Defect Unit
  | [] => .ok ()
  | item :: rest => do
    pass item
    passItems rest
termination_by structural items => items

def passMembers : List (JsonText × Json) → Except Defect Unit
  | [] => .ok ()
  | (_, item) :: rest => do
    pass item
    passMembers rest
termination_by structural members => members

end

mutual

/-- Look at all of a value. -/
def survey (depth : Nat) : Json → Except Defect Unit
  | number value _ => if isFinite value then .ok () else .error .malformed
  | text none => .error .malformed
  | array items breach => do
    surveyItems (← enter depth) items
    close breach
  | object members breach => do
    surveyMembers (← enter depth) members
    close breach
  | broken breach => .error breach.looking
  | _ => .ok ()
termination_by structural json => json

def surveyItems (depth : Nat) : List Json → Except Defect Unit
  | [] => .ok ()
  | item :: rest => do
    survey depth item
    surveyItems depth rest
termination_by structural items => items

def surveyMembers (depth : Nat) : List (JsonText × Json) → Except Defect Unit
  | [] => .ok ()
  | (none, _) :: _ => .error .malformed
  | (some _, item) :: rest => do
    survey depth item
    surveyMembers depth rest
termination_by structural members => members

end

def asText : Json → Except Defect String
  | text (some contents) => .ok contents
  | json => .error json.reject

def asBool : Json → Except Defect Bool
  | bool value => .ok value
  | json => .error json.reject

/-- A count is written with digits alone and fits an unsigned 64-bit word. -/
def asCount : Json → Except Defect Nat
  | number value plain =>
    if plain && !value.negative && value.digits < 2 ^ (64 : Nat) then .ok value.digits
    else .error (reject (number value plain))
  | json => .error json.reject

def asOption {α : Type} (decode : Json → Except Defect α) : Json → Except Defect (Option α)
  | null => .ok none
  | json => (decode json).map some

def asList {α : Type} (decoder : Option (Json → Except Defect α)) : Json → Except Defect (List α)
  | array items breach => do
    let decode ← openWith decoder
    let found ← items.mapM decode
    close breach
    return found
  | json => .error json.reject

def asTexts (depth : Nat) : Json → Except Defect (List String) :=
  asList (inside (fun _ => asText) depth)

/-- The members of an object by name; of members of one name the last counts. -/
def sortMembers {α : Type} (decode : Json → Except Defect α) :
    List (String × α) → List (JsonText × Json) → Except Defect (List (String × α))
  | found, [] => .ok found
  | _, (none, _) :: _ => .error .malformed
  | found, (some name, item) :: rest => do
    let value ← decode item
    sortMembers decode (Keyed.insert name value found) rest

def asMap {α : Type} (decoder : Option (Json → Except Defect α)) :
    Json → Except Defect (List (String × α))
  | object members breach => do
    let decode ← openWith decoder
    let found ← sortMembers decode [] members
    close breach
    return found
  | json => .error json.reject

/-- What a record does with a member it does not know. -/
inductive Strangers
  | ignored
  | refused
  deriving DecidableEq, Repr

/-- A member of a record: its name, and what its value makes of the record. -/
structure Member (α : Type) where
  name : String
  decode : Json → Except Defect (α → α)

/-- The member whose value, once decoded, is put into the record. -/
def Member.of {α β : Type} (name : String) (decode : Json → Except Defect β) (put : β → α → α) :
    Member α :=
  { name, decode := fun json => (decode json).map put }

/-- Take up the members of an object. No known one may occur twice; the names of those
that have been met are in `met`. -/
def takeMembers {α : Type} (known : List (Member α)) (strangers : Strangers) :
    List String → α → List (JsonText × Json) → Except Defect α
  | _, record, [] => .ok record
  | _, _, (none, _) :: _ => .error .malformed
  | met, record, (some name, item) :: rest =>
    match known.find? (·.name = name), strangers with
    | some member, _ => do
      if met.contains name then throw .misshapen
      let change ← member.decode item
      takeMembers known strangers (name :: met) (change record) rest
    | none, .ignored => do
      pass item
      takeMembers known strangers met record rest
    | none, .refused => .error .misshapen

/-- Take up the members of an array, which are the first of those known. -/
def takeItems {α : Type} : List (Member α) → α → List Json → Except Defect α
  | _, record, [] => .ok record
  | [], _, _ :: _ => .error .malformed
  | member :: known, record, item :: rest => do
    let change ← member.decode item
    takeItems known (change record) rest

/-- A record, given as an object or as an array of its first members in order. Members that are
missing stay as they are in `start`. -/
def asRecord {α : Type} (decoder : Option (List (Member α))) (strangers : Strangers) (start : α) :
    Json → Except Defect α
  | object members breach => do
    let known ← openWith decoder
    let record ← takeMembers known strangers [] start members
    close breach
    return record
  | array items breach => do
    let known ← openWith decoder
    let record ← takeItems known start items
    close breach
    return record
  | json => .error json.reject

end BlockSynth.Json
