import BlockSynth.Program.Ledger
import BlockSynth.Script
import BlockSynth.Text.Quote

/-! # Common parts of the Zig emitters

Numbers are `f32`, text is `[]const u8`, lists are `std.ArrayList(f32)`, and whatever allocates uses
one allocator at file scope.
-/
namespace BlockSynth.Zig

def quotes : QuoteStyle := {}

def quote (raw : String) : String :=
  quotes.quote raw

def emptyText : String := "\"\""

def declareConst (name code : String) : String :=
  s!"const {name} = {code};\n"

def requireStd : Script Unit :=
  .requireText "std" "const std = @import(\"std\");"

/-- The allocator comes from the standard library, so that is required before it. -/
def requireAllocator : Script Unit := do
  requireStd
  .requireText "allocator" "const allocator = std.heap.page_allocator;"

def unknownOption {α : Type} (node : Node) (field : String) : Script α :=
  .fail (.ofOption node field)

/-- The text of a field that has to be there. -/
def option (node : Node) (field : String) : Script String :=
  match node.fieldText field with
  | some text => .done text
  | none => unknownOption node field

def optionOr (node : Node) (field default : String) : String :=
  (node.fieldText field).getD default

/-- A choice among the options of a field. -/
def choose {α : Type} (node : Node) (field : String) (choice : Option α) : Script α :=
  match choice with
  | some answer => .done answer
  | none => unknownOption node field

/-- The slots of a node with a variable number of items. -/
def itemSlots (node : Node) : List String :=
  (List.range node.mutation.items).map fun i => s!"ADD{i}"

/-- The identifier of the variable that a node names. -/
def variableOf (node : Node) : Script String := do
  .variableName (← option node "VAR")

/-- Bind code to a name unless it is a single word. -/
def cache (code name : String) : Script Cached :=
  .cache declareConst code name

/-! ### Writing Zig -/

/-- A head and the text between its braces, from the line break after the opening one on. -/
def braces (head body : String) : String :=
  s!"{head} \x7b\n{body}\x7d"

/-- The lines of a block in a helper template, in which a step is two spaces. -/
def block (head : String) (body : List String) : List String :=
  (head ++ " \x7b") :: body.map ("  " ++ ·) ++ ["\x7d"]

/-- A block and one that is entered otherwise. -/
def blockElse (head : String) (body : List String) (otherHead : String) (otherBody : List String) :
    List String :=
  (head ++ " \x7b") :: body.map ("  " ++ ·) ++ ("\x7d else " ++ otherHead ++ " \x7b") ::
    otherBody.map ("  " ++ ·) ++ ["\x7d"]

/-- The template of a helper with the given parameters and result. -/
def routine (signature : String) (body : List String) : String :=
  "\n" ++ Text.join "\n" (block ("fn " ++ helperMark ++ signature) body) ++ "\n"

end BlockSynth.Zig
