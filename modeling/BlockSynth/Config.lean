import BlockSynth.Json.Reader
import BlockSynth.Json.Shape

/-! # Configuration

The settings of one run. They can be read from a document, in which every member may be missing and
none may be unknown.
-/
namespace BlockSynth

structure Config where
  indentUnit : String := "    "
  reservedWords : List String := []
  /-- Text to inject before every statement, `%1` standing for the id of its node. -/
  beforeStatement : Option String := none
  /-- Text to inject after every statement. -/
  afterStatement : Option String := none
  /-- Text to inject at the top of every loop body. -/
  loopTrap : Option String := none
  /-- Whether the positions in a graph count from one. -/
  oneBased : Bool := true
  deriving DecidableEq, Repr

namespace Config

def spaces (width : Nat) : String :=
  String.ofList (List.replicate width ' ')

def withIndentWidth (config : Config) (width : Nat) : Config :=
  { config with indentUnit := spaces width }

def withReservedWords (config : Config) (words : List String) : Config :=
  { config with reservedWords := config.reservedWords ++ words }

def members (depth : Nat) : List (Json.Member Config) :=
  [.of "indent_unit" Json.asText fun indentUnit config => { config with indentUnit },
    .of "reserved_words" (Json.asTexts depth) fun reservedWords config =>
      { config with reservedWords },
    .of "statement_prefix" (Json.asOption Json.asText) fun beforeStatement config =>
      { config with beforeStatement },
    .of "statement_suffix" (Json.asOption Json.asText) fun afterStatement config =>
      { config with afterStatement },
    .of "loop_trap" (Json.asOption Json.asText) fun loopTrap config => { config with loopTrap },
    .of "one_based_indexing" Json.asBool fun oneBased config => { config with oneBased }]

def ofJson : Json → Except Defect Config :=
  Json.asRecord (Json.inside members Json.depthLimit) .refused {}

def ofText (text : String) : Except Defect Config :=
  (Json.read text).decode Config.ofJson

end Config

end BlockSynth
