import BlockSynth.Command.Arguments
import BlockSynth.Command.Files
import BlockSynth.Graph.Document
import BlockSynth.Render
import BlockSynth.Zig.Target

/-! # Carrying out commands

What a command prints and with what it exits is computed from the contents of the files it reads.
The one thing left to do after that is to write the program that it built.
-/
namespace BlockSynth.Command

def programName : String := "weft"

def version : String := "0.1.0-alpha.1"

/-- A report on a fault for the person at the command line. -/
structure Diagnostic where
  message : String
  cause : Option String := none
  help : Option String := none
  code : String
  deriving DecidableEq, Repr

def Diagnostic.narrate (diagnostic : Diagnostic) : String :=
  let line := fun (label : String) (text : Option String) =>
    match text with
    | some text => label ++ text ++ "\n"
    | none => ""
  diagnostic.message ++ "\n    Diagnostic severity: error\n" ++
    line "    Caused by: " diagnostic.cause ++ line "diagnostic help: " diagnostic.help ++
    line "diagnostic code: " (some diagnostic.code)

def faultDiagnostic (fault : Fault) : Diagnostic :=
  let message := fault.message
  match fault with
  | .unhandledKind .. =>
    { message, help := some "run `weft kinds` to list supported node kinds"
      code := "weft::emit::unhandled_kind" }
  | .unhandledOption .. => { message, code := "weft::emit::unhandled_option" }
  | .wrongShape .. =>
    { message
      help := some "value nodes belong in value slots and statement nodes in statement chains"
      code := "weft::emit::wrong_shape" }

def defectText : Defect → String
  | .cutShort => "the text ends too early"
  | .malformed => "the text is not a document"
  | .misshapen => "the document does not have the expected shape"

def repeatedIdText (id : String) : String :=
  s!"node id `{id}` is used by more than one node"

def loadDiagnostic : LoadFault → Diagnostic
  | .document defect =>
    let cause := defectText defect
    { message := s!"graph document is not valid JSON: {cause}"
      cause := some cause
      help := some "expected an object with `variables` and `roots` arrays"
      code := "weft::graph::json" }
  | .repeatedId id =>
    { message := repeatedIdText id
      help := some "node ids must be unique within a workspace"
      code := "weft::graph::duplicate_id" }

def unreadableDiagnostic (path cause : String) : Diagnostic where
  message := s!"cannot read graph document `{path}`"
  cause := some cause
  code := "weft::graph::io"

structure Outcome where
  exit : Nat := 0
  stdout : String := ""
  stderr : String := ""
  deriving DecidableEq, Repr

def Outcome.failure (message : String) : Outcome where
  exit := 1
  stderr := message ++ "\n"

/-- What is left to do. -/
inductive Plan
  | finish (outcome : Outcome)
  | save (path text : String)
  deriving DecidableEq, Repr

/-- How the contents of a file are found; a text stands for why they are not. -/
abbrev ReadFile := String → Except String String

def loadConfig (read : ReadFile) : Option String → Except Outcome Config
  | none => .ok {}
  | some path =>
    match read path with
    | .error cause => .error (.failure s!"Error reading config `{path}`: {cause}")
    | .ok text =>
      match Config.ofText text with
      | .ok config => .ok config
      | .error defect =>
        let cause := defectText defect
        .error (.failure s!"Invalid config `{path}`: {cause}")

def loadGraph (read : ReadFile) (path : String) : Except Outcome Workspace :=
  match read path with
  | .error cause => .error (.failure (unreadableDiagnostic path cause).narrate)
  | .ok text =>
    match Workspace.loadText text with
    | .ok workspace => .ok workspace
    | .error fault => .error (.failure (loadDiagnostic fault).narrate)

/-- The program that a build makes. The configuration is read before the graph. -/
def buildProgram (read : ReadFile) (options : BuildOptions) : Except Outcome String := do
  let config ← loadConfig read options.config
  let workspace ← loadGraph read options.graph
  match (Zig.setting (options.configure config)).generate workspace with
  | .ok code => return code
  | .error fault => throw (.failure (faultDiagnostic fault).narrate)

def build (read : ReadFile) (options : BuildOptions) : Plan :=
  match buildProgram read options, options.output with
  | .error outcome, _ => .finish outcome
  | .ok code, some path => .save path code
  | .ok code, none => .finish { stdout := code }

/-- The kinds in a workspace that the catalog does not know, each once and in order. -/
def unknownKinds (workspace : Workspace) : List String :=
  let unknown := (workspace.nodes.map Node.kind).filter (!Zig.catalog.contains ·)
  (unknown.foldl (fun kinds kind => Keyed.insert kind () kinds) []).map Prod.fst

def check (read : ReadFile) (path : String) : Outcome :=
  match loadGraph read path with
  | .error outcome => outcome
  | .ok workspace =>
    let unknown := unknownKinds workspace
    if unknown.isEmpty then
      let nodeCount := workspace.nodes.length
      let rootCount := workspace.roots.length
      let nameCount := workspace.variableNames.length
      { stdout := s!"{path}: {nodeCount} nodes in {rootCount} stacks, {nameCount} variables\n" }
    else .failure (path ++ ": unsupported node kinds: " ++ Text.join ", " unknown)

def kinds : Outcome where
  stdout := String.join (Zig.catalog.kinds.map (· ++ "\n"))

def usage : String :=
  "Generate Zig source from visual block graphs\n\nUsage: weft <COMMAND>\n\nCommands:\n" ++
    "  build  Generate Zig source from a graph document\n" ++
    "  check  Load and validate a graph document\n" ++
    "  kinds  List the node kinds the Zig target handles\n" ++
    "  help   Print this message or the help of the given subcommand(s)\n"

def UsageFault.text : UsageFault → String
  | .missingArgument => "a required argument was not provided"
  | .unknownArgument => "unexpected argument"
  | .unknownCommand => "unrecognized subcommand"
  | .missingValue => "a value is required"
  | .invalidValue => "invalid value"
  | .repeatedOption => "an option cannot be used multiple times"
  | .surplusValue => "unexpected value for an option that takes none"
  | _ => usage

def usageOutcome : UsageFault → Outcome
  | .helpRequested => { stdout := usage }
  | .versionRequested => { stdout := programName ++ " " ++ version ++ "\n" }
  | .noArguments => { exit := 2, stderr := usage }
  | fault => { exit := 2, stderr := "error: " ++ fault.text ++ "\n\n" ++ usage }

def run (read : ReadFile) (args : List String) : Plan :=
  match parse args with
  | .error fault => .finish (usageOutcome fault)
  | .ok (.build options) => build read options
  | .ok (.check path) => .finish (check read path)
  | .ok .kinds => .finish kinds

def saved : Outcome := {}

def notSaved (path cause : String) : Outcome :=
  .failure s!"Error writing `{path}`: {cause}"

/-- Run in a directory of files: the outcome and the files afterwards. -/
def runIn (files : Files) (args : List String) : Outcome × Files :=
  match run (fun path => (files.read path).mapError FileFault.message) args with
  | .finish outcome => (outcome, files)
  | .save path text =>
    match files.write path text with
    | .ok files => (saved, files)
    | .error fault => (notSaved path fault.message, files)

end BlockSynth.Command
