import BlockSynth.Keyed
import BlockSynth.Number.Decimal
import BlockSynth.Number.Shortest

/-! # Nodes

A node is one block: a kind, named fields, named value slots, named statement slots,
and the node that follows it in its chain. Fields and slots are ordered by name, so
that there is one order in which to walk through a node.
-/
namespace BlockSynth

inductive Field
  | flag (value : Bool)
  | number (value : Binary64)
  | text (value : String)
  deriving DecidableEq, Repr

/-- How a field is shown. -/
def Field.display : Field → String
  | flag value => if value then "TRUE" else "FALSE"
  | number value => value.toText
  | text value => value

/-- How a node departs from the plain form of its kind. -/
structure Mutation where
  items : Nat := 0
  elseIf : Nat := 0
  hasElse : Bool := false
  params : List String := []
  hasReturn : Bool := false
  deriving DecidableEq, Repr

structure Node where
  id : String := ""
  kind : String := ""
  fields : List (String × Field) := []
  inputs : List (String × Node) := []
  statements : List (String × Node) := []
  next : Option Node := none
  comment : Option String := none
  disabled : Bool := false
  mutation : Mutation := {}
  deriving Repr

/-- Case-insensitive equality of ASCII letters. -/
def Text.equalFold (a b : String) : Bool :=
  a.toList.map Char.toLower == b.toList.map Char.toLower

namespace Node

def field (node : Node) (name : String) : Option Field :=
  node.fields.lookup name

def fieldText (node : Node) (name : String) : Option String :=
  match node.field name with
  | some (.text value) => some value
  | _ => none

def fieldNumber (node : Node) (name : String) : Option Binary64 :=
  match node.field name with
  | some (.number value) => some value
  | some (.text value) => Binary64.ofText? (Text.trim value)
  | _ => none

def fieldBool (node : Node) (name : String) : Option Bool :=
  match node.field name with
  | some (.flag value) => some value
  | some (.text value) =>
    if Text.equalFold value "true" then some true
    else if Text.equalFold value "false" then some false
    else none
  | _ => none

def input (node : Node) (slot : String) : Option Node :=
  node.inputs.lookup slot

def statement (node : Node) (slot : String) : Option Node :=
  node.statements.lookup slot

def withField (node : Node) (name : String) (value : Field) : Node :=
  { node with fields := Keyed.insert name value node.fields }

def withInput (node : Node) (slot : String) (child : Node) : Node :=
  { node with inputs := Keyed.insert slot child node.inputs }

def withStatement (node : Node) (slot : String) (child : Node) : Node :=
  { node with statements := Keyed.insert slot child node.statements }

/-- Hang each node of a list below the one before it; the last one keeps what follows it. -/
def chain : List Node → Option Node
  | [] => none
  | [node] => some node
  | node :: rest => some { node with next := chain rest }

/-- The nodes directly below a node: inputs, then statements, then the next in its chain. -/
def children (node : Node) : List Node :=
  node.inputs.map Prod.snd ++ node.statements.map Prod.snd ++ node.next.toList

mutual

/-- A node and all nodes below it, each before its children. -/
def nodes : Node → List Node
  | ⟨id, kind, fields, inputs, statements, next, comment, disabled, mutation⟩ =>
    ⟨id, kind, fields, inputs, statements, next, comment, disabled, mutation⟩ ::
      (slotNodes inputs ++ slotNodes statements ++ chainNodes next)
termination_by structural node => node

def slotNodes : List (String × Node) → List Node
  | [] => []
  | (_, node) :: rest => node.nodes ++ slotNodes rest
termination_by structural slots => slots

def chainNodes : Option Node → List Node
  | none => []
  | some node => node.nodes
termination_by structural next => next

end

/-- The comment of a node, if it says anything. -/
def remark (node : Node) : Option String :=
  node.comment.filter (· ≠ "")

end Node

end BlockSynth
