import BlockSynth.Catalog
import BlockSynth.Graph.Workspace
import BlockSynth.Program.Ledger
import BlockSynth.Text.Quote

/-! # Targets and settings

A target is everything that belongs to one output language. Together with a configuration it is the
setting of a run.
-/
namespace BlockSynth

structure Target where
  name : String
  reservedWords : List String := []
  quotes : QuoteStyle := {}
  /-- What a comment line starts with. -/
  commentMark : String := "// "
  catalog : Catalog
  /-- What is recorded before the first root is rendered. -/
  opening : Workspace → Ledger → Ledger
  /-- A statement that only evaluates a value. -/
  nakedValue : String → String
  /-- A statement that binds a name to a value. -/
  cacheDeclaration : String → String → String
  /-- The program with the given imports, other definitions and body. -/
  assemble : Config → List String → List String → String → String

structure Setting where
  target : Target
  config : Config

namespace Config

/-- A template of the configuration, filled in for a node. -/
def injected (style : QuoteStyle) (template : Option String) (id : String) : String :=
  match template with
  | some text => style.inject text id
  | none => ""

def before (config : Config) (style : QuoteStyle) (id : String) : String :=
  injected style config.beforeStatement id

def after (config : Config) (style : QuoteStyle) (id : String) : String :=
  injected style config.afterStatement id

def trap (config : Config) (style : QuoteStyle) (id : String) : String :=
  injected style config.loopTrap id

/-- Put the injected text of a loop around its body. It is indented like the body, and stands in the
reverse order of that of a statement, because the body begins where the loop statement's own text
has run already. -/
def trapLoop (config : Config) (style : QuoteStyle) (body id : String) : String :=
  let indent := Text.prefixLines config.indentUnit
  indent (config.after style id) ++ indent (config.trap style id) ++ body ++
    indent (config.before style id)

end Config

/-- The comments that stand before the code of a node: its own, and those of all nodes in its value
slots. -/
def Node.comments (mark : String) (node : Node) : String :=
  let lines := fun (remarks : List String) => String.join (remarks.map (· ++ "\n"))
  Text.prefixLines mark (lines node.remark.toList) ++
    String.join (node.inputs.map fun slot =>
      Text.prefixLines mark (lines (slot.2.nodes.filterMap Node.remark)))

namespace Setting

def before (setting : Setting) (id : String) : String :=
  setting.config.before setting.target.quotes id

def after (setting : Setting) (id : String) : String :=
  setting.config.after setting.target.quotes id

def trap (setting : Setting) (id : String) : String :=
  setting.config.trap setting.target.quotes id

def trapLoop (setting : Setting) (body id : String) : String :=
  setting.config.trapLoop setting.target.quotes body id

def comments (setting : Setting) (node : Node) : String :=
  node.comments setting.target.commentMark

end Setting

end BlockSynth
