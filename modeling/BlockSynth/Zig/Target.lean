import BlockSynth.Target
import BlockSynth.Zig.Arithmetic
import BlockSynth.Zig.Binding
import BlockSynth.Zig.Choice
import BlockSynth.Zig.Device
import BlockSynth.Zig.Iteration
import BlockSynth.Zig.Palette
import BlockSynth.Zig.Position
import BlockSynth.Zig.Routine
import BlockSynth.Zig.Sequence
import BlockSynth.Zig.Slice
import BlockSynth.Zig.Statistics
import BlockSynth.Zig.Wording
import BlockSynth.Zig.Words

/-! # The Zig target

A program consists of its imports, its other definitions and a main function with the code of all
roots.
-/
namespace BlockSynth.Zig

def emitters : List (String × Emitter) :=
  choices ++ iterations ++ arithmetic ++ statistics ++ wordings ++ positions ++ slices ++
    sequences ++ palette ++ bindings ++ routines ++ devices

def aliases : List (String × String) :=
  choiceAliases ++ iterationAliases ++ arithmeticAliases ++ wordingAliases ++ bindingAliases ++
    routineAliases

def catalog : Catalog :=
  (Catalog.registerAll {} emitters).withAliases aliases

/-- The name that a root gives to a procedure. -/
def definedName (root : Node) : Option String :=
  if "procedures_def".toList.isPrefixOf root.kind.toList then root.fieldText "NAME" else none

/-- Declare the variables, and name the procedures, which may be called before they are defined. -/
def opening (workspace : Workspace) (ledger : Ledger) : Ledger :=
  let (words, names) := ledger.names.resolveAll .variable workspace.variableNames
  let lines := words.map fun word => s!"var {word}: f32 = 0;"
  let definitions :=
    if words.isEmpty then ledger.definitions
    else ledger.definitions.insert .variableBlock (Text.join "\n" lines)
  let (_, names) := names.resolveAll .procedure (workspace.roots.filterMap definedName)
  { ledger with names, definitions }

/-- What stands before the main function. -/
def header (imports others : List String) : String :=
  let rest := if others.isEmpty then "" else "\n\n" ++ Text.join "\n\n" others
  Text.trimNewlines (Text.collapseBlankLines (Text.join "\n" imports ++ rest))

def assemble (config : Config) (imports others : List String) (body : String) : String :=
  let head := header imports others
  (if head = "" then "" else head ++ "\n\n\n") ++
    braces "pub fn main() !void" (Text.prefixLines config.indentUnit body)

def target : Target where
  name := "zig"
  reservedWords := reservedWords
  quotes := quotes
  commentMark := commentMark
  catalog := catalog
  opening := opening
  nakedValue code := s!"_ = {code};\n"
  cacheDeclaration := declareConst
  assemble := assemble

def setting (config : Config) : Setting :=
  ⟨target, config⟩

end BlockSynth.Zig
