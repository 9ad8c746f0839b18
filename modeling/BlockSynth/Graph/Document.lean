import BlockSynth.Graph.Workspace
import BlockSynth.Json.Reader
import BlockSynth.Json.Shape

/-! # Graph documents

Every member of a graph document may be missing, and members it does not know are passed over.
-/
namespace BlockSynth

/-- A field is a flag, a number or a text. To see that it is none of them, all of it
is looked at. -/
def Field.ofJson (depth : Nat) : Json → Except Defect Field
  | .bool value => .ok (.flag value)
  | .number value plain =>
    if Json.isFinite value then .ok (.number value.toBinary64)
    else .error (Json.number value plain).reject
  | .text (some value) => .ok (.text value)
  | json => do
    json.survey depth
    throw .misshapen

def Mutation.members (depth : Nat) : List (Json.Member Mutation) :=
  [.of "items" Json.asCount fun items mutation => { mutation with items },
    .of "else_if" Json.asCount fun elseIf mutation => { mutation with elseIf },
    .of "has_else" Json.asBool fun hasElse mutation => { mutation with hasElse },
    .of "params" (Json.asTexts depth) fun params mutation => { mutation with params },
    .of "has_return" Json.asBool fun hasReturn mutation => { mutation with hasReturn }]

def Mutation.ofJson (depth : Nat) : Json → Except Defect Mutation :=
  Json.asRecord (Json.inside members depth) .ignored {}

/-- The members of a node, given how the nodes in its slots and the one after it are decoded. -/
def Node.members (depth : Nat) (slots : Option (Json → Except Defect Node))
    (next : Json → Except Defect Node) : List (Json.Member Node) :=
  [.of "id" Json.asText fun id node => { node with id },
    .of "kind" Json.asText fun kind node => { node with kind },
    .of "fields" (Json.asMap (Json.inside Field.ofJson depth)) fun fields node =>
      { node with fields },
    .of "inputs" (Json.asMap slots) fun inputs node => { node with inputs },
    .of "statements" (Json.asMap slots) fun statements node => { node with statements },
    .of "next" (Json.asOption next) fun next node => { node with next },
    .of "comment" (Json.asOption Json.asText) fun comment node => { node with comment },
    .of "disabled" Json.asBool fun disabled node => { node with disabled },
    .of "mutation" (Mutation.ofJson depth) fun mutation node => { node with mutation }]

def Node.ofJson : Nat → Json → Except Defect Node
  | 0, json => json.asRecord none .ignored {}
  | depth + 1, json =>
    let slots := match depth with
      | 0 => none
      | inner + 1 => some (Node.ofJson inner)
    json.asRecord (some (members depth slots (Node.ofJson depth))) .ignored {}

def Workspace.members (depth : Nat) : List (Json.Member Workspace) :=
  [.of "variables" (Json.asTexts depth) fun variableNames workspace =>
      { workspace with variableNames },
    .of "roots" (Json.asList (Json.inside Node.ofJson depth)) fun roots workspace =>
      { workspace with roots }]

def Workspace.ofJson (depth : Nat) : Json → Except Defect Workspace :=
  Json.asRecord (Json.inside members depth) .ignored {}

/-- Why a graph cannot be loaded. -/
inductive LoadFault
  | document (defect : Defect)
  | repeatedId (id : String)
  deriving DecidableEq, Repr

/-- Decode a graph and give every node of it an id. -/
def Workspace.load (document : Document) : Except LoadFault Workspace :=
  match document.decode (Workspace.ofJson Json.depthLimit) with
  | .error defect => .error (.document defect)
  | .ok workspace =>
    match workspace.settle with
    | .error id => .error (.repeatedId id)
    | .ok workspace => .ok workspace

def Workspace.loadText (text : String) : Except LoadFault Workspace :=
  Workspace.load (Json.read text)

end BlockSynth
