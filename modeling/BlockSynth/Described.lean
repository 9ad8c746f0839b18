import BlockSynth.Target

/-! # Described targets

A target can be given by rules: for every kind of node a list of parts whose texts, one after the
other, make up its code.
-/
namespace BlockSynth

inductive Part
  | literal (text : String)
  | value (slot : String) (rank : Rank) (fallback : String)
  | statements (slot : String)
  | loop (slot : String)
  | index (slot : String) (delta : Int) (negate : Bool) (rank : Rank)
  | fresh (name : String)
  | identifier (name : String)
  | field (name : String)
  | helper (key template : String)
  | require (tag text : String)
  | enclosingLoop
  deriving DecidableEq, Repr

def Part.script (config : Config) (node : Node) : Part → Script String
  | literal text => .done text
  | value slot rank fallback => .valueOr slot rank fallback
  | statements slot => .askStatements slot
  | loop slot => .askLoopBody slot
  | index slot delta negate rank => .index config slot delta negate rank
  | fresh name => .freshName name
  | identifier name => .variableName name
  | field name =>
    match node.field name with
    | some shown => .done shown.display
    | none => .fail (.ofOption node name)
  | helper key template => .askHelper key template
  | require tag text => do
    .requireText tag text
    return ""
  | enclosingLoop => do return (← Script.askLoop).getD "-"

def Part.scripts (config : Config) (node : Node) : List Part → Script String
  | [] => .done ""
  | part :: rest => do
    let text ← part.script config node
    let texts ← Part.scripts config node rest
    return text ++ texts

/-- What a rule makes of the text of its parts. -/
inductive RuleShape
  | value
  | statement
  | nothing
  deriving DecidableEq, Repr

structure Rule where
  shape : RuleShape
  rank : Rank := .none
  parts : List Part := []
  selfInjecting : Bool := false
  deriving DecidableEq, Repr

def Rule.emission (rule : Rule) (text : String) : Emission :=
  match rule.shape with
  | .value => .value text rule.rank
  | .statement => .statement text
  | .nothing => .nothing

def Rule.emitter (rule : Rule) : Emitter where
  script config node := do return rule.emission (← Part.scripts config node rule.parts)
  selfInjecting := rule.selfInjecting

structure Description where
  rules : List (String × Rule) := []
  aliases : List (String × String) := []
  reservedWords : List String := []
  quotes : QuoteStyle := {}
  commentMark : String := "// "
  deriving DecidableEq, Repr

namespace Description

def catalog (description : Description) : Catalog :=
  (Catalog.registerAll {} (description.rules.map fun (kind, rule) =>
    (kind, rule.emitter))).withAliases description.aliases

/-- Declare the variables of a workspace, and list their identifiers as one definition. -/
def opening (workspace : Workspace) (ledger : Ledger) : Ledger :=
  let (words, names) := ledger.names.resolveAll .variable workspace.variableNames
  let ledger := { ledger with names }
  if words.isEmpty then ledger
  else { ledger with definitions := ledger.definitions.insert .variableBlock (Text.join "\n" words) }

def rule : String := "\n----\n"

def target (description : Description) : Target where
  name := "described"
  reservedWords := description.reservedWords
  quotes := description.quotes
  commentMark := description.commentMark
  catalog := description.catalog
  opening := opening
  nakedValue code := s!"expr {code}\n"
  cacheDeclaration name code := s!"let {name} = {code}\n"
  assemble _ imports others body :=
    Text.join "\n" imports ++ rule ++ Text.join "\n" others ++ rule ++ body

end Description

end BlockSynth
