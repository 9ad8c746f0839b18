import BlockSynth.Graph.Node

/-! # Faults

Why a node cannot be rendered. Every fault names its node by kind and id; an empty slot is never a
fault.
-/
namespace BlockSynth

/-- The two places that code can stand in. -/
inductive Shape
  | value
  | statement
  deriving DecidableEq, Repr

def Shape.name : Shape → String
  | value => "value"
  | statement => "statement"

inductive Fault
  /-- No emitter is known for the kind. -/
  | unhandledKind (kind id : String)
  /-- A field holds an option that the emitter does not know. -/
  | unhandledOption (kind id field value : String)
  /-- The node stands in a place of the other shape. -/
  | wrongShape (kind id : String) (expected : Shape)
  deriving DecidableEq, Repr

namespace Fault

def ofKind (node : Node) : Fault :=
  unhandledKind node.kind node.id

/-- A field that is missing is reported with an empty value. -/
def ofOption (node : Node) (field : String) : Fault :=
  unhandledOption node.kind node.id field (((node.field field).map Field.display).getD "")

def ofShape (node : Node) (expected : Shape) : Fault :=
  wrongShape node.kind node.id expected

def message : Fault → String
  | unhandledKind kind id => s!"no emitter is registered for node kind `{kind}` (node `{id}`)"
  | unhandledOption kind id field value => s!"node `{id}` ({kind}) has unknown {field} `{value}`"
  | wrongShape kind id expected =>
    s!"node `{id}` ({kind}) was used where a {expected.name} was expected"

end Fault

end BlockSynth
