import BlockSynth.Graph.Node

/-! # Workspaces

A workspace holds the names of the declared variables and the roots of its stacks. Every node of a
settled workspace has an id of its own; a node that brings none gets `n1`, `n2`, … in the order in
which the nodes are walked, and numbers that the document uses already are passed over.
-/
namespace BlockSynth

structure Workspace where
  variableNames : List String := []
  roots : List Node := []
  deriving Repr

/-- The first text of a list that stands in it a second time, or in `seen`. -/
def firstRepeated (seen : List String) : List String → Option String
  | [] => none
  | text :: rest => if seen.contains text then some text else firstRepeated (text :: seen) rest

def numberedId (number : Nat) : String :=
  "n" ++ toString number

/-- The first number from `number` on whose id is not taken, if one of the next `fuel` is. -/
def freeNumber (taken : List String) (number : Nat) : Nat → Nat
  | 0 => number
  | fuel + 1 =>
    if taken.contains (numberedId number) then freeNumber taken (number + 1) fuel else number

/-- The id of a node that follows the given number of counted ones, and the count after it. -/
def settleId (taken : List String) (id : String) (counted : Nat) : String × Nat :=
  if id = "" then
    let number := freeNumber taken (counted + 1) taken.length
    (numberedId number, number)
  else (id, counted)

mutual

def Node.settle (taken : List String) : Node → Nat → Node × Nat
  | ⟨id, kind, fields, inputs, statements, next, comment, disabled, mutation⟩, counted =>
    let (id, counted) := settleId taken id counted
    let (inputs, counted) := Node.settleSlots taken inputs counted
    let (statements, counted) := Node.settleSlots taken statements counted
    let (next, counted) := Node.settleChain taken next counted
    (⟨id, kind, fields, inputs, statements, next, comment, disabled, mutation⟩, counted)
termination_by structural node => node

def Node.settleSlots (taken : List String) : List (String × Node) → Nat → List (String × Node) × Nat
  | [], counted => ([], counted)
  | (slot, node) :: rest, counted =>
    let (node, counted) := node.settle taken counted
    let (rest, counted) := Node.settleSlots taken rest counted
    ((slot, node) :: rest, counted)
termination_by structural slots => slots

def Node.settleChain (taken : List String) : Option Node → Nat → Option Node × Nat
  | none, counted => (none, counted)
  | some node, counted =>
    let (node, counted) := node.settle taken counted
    (some node, counted)
termination_by structural next => next

end

def Node.settleAll (taken : List String) : List Node → Nat → List Node
  | [], _ => []
  | node :: rest, counted =>
    let (node, counted) := node.settle taken counted
    node :: Node.settleAll taken rest counted

namespace Workspace

def nodes (workspace : Workspace) : List Node :=
  workspace.roots.flatMap Node.nodes

/-- The ids that the nodes bring along. -/
def givenIds (workspace : Workspace) : List String :=
  (workspace.nodes.map Node.id).filter (· ≠ "")

/-- The workspace with an id for every node, or the id that two nodes share. -/
def settle (workspace : Workspace) : Except String Workspace :=
  match firstRepeated [] workspace.givenIds with
  | some id => .error id
  | none => .ok { workspace with roots := Node.settleAll workspace.givenIds workspace.roots 0 }

end Workspace

end BlockSynth
