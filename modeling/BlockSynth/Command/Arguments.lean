import BlockSynth.Config
import BlockSynth.Text.Shape

/-! # Command lines

A command line names a command and gives it options and at most one graph. An option takes its value
from the next argument or from behind an equals sign; an argument that looks like an option is never
taken for a value.
-/
namespace BlockSynth.Command

-- Powers of numbers are the ones of the core library, whatever else is imported.
attribute [local instance (high)] instPowNat

structure BuildOptions where
  graph : String
  output : Option String := none
  config : Option String := none
  indent : Option Nat := none
  zeroBased : Bool := false
  beforeStatement : Option String := none
  afterStatement : Option String := none
  loopTrap : Option String := none
  reserved : List String := []
  deriving DecidableEq, Repr

/-- What is asked for. -/
inductive Request
  | build (options : BuildOptions)
  | check (graph : String)
  | kinds
  deriving DecidableEq, Repr

/-- Why a command line is not carried out. -/
inductive UsageFault
  | noArguments
  | missingArgument
  | unknownArgument
  | unknownCommand
  | missingValue
  | invalidValue
  | repeatedOption
  | surplusValue
  | helpRequested
  | versionRequested
  deriving DecidableEq, Repr

/-- What takes a value. -/
inductive Parameter
  | graph
  | output
  | config
  | indent
  | beforeStatement
  | afterStatement
  | loopTrap
  | reserve
  deriving DecidableEq, Repr

/-- What a command accepts. -/
structure Form where
  takesGraph : Bool := true
  takesOptions : Bool := false

def Form.long? (form : Form) (name : String) : Option Parameter :=
  if form.takesOptions then
    match name with
    | "output" => some .output
    | "config" => some .config
    | "indent" => some .indent
    | "statement-prefix" => some .beforeStatement
    | "statement-suffix" => some .afterStatement
    | "loop-trap" => some .loopTrap
    | "reserve" => some .reserve
    | _ => none
  else none

/-- What has been read of a command line. The last value stays pending until something else shows
that it is complete. -/
structure Reading where
  values : List (Parameter × String) := []
  zeroBased : Bool := false
  graphSeen : Bool := false
  pending : Option (Parameter × Option String) := none
  deriving DecidableEq, Repr

/-- An unsigned 64-bit number, perhaps with a plus sign. -/
def natural? (text : String) : Option Nat :=
  let digits := match text.toList with
    | '+' :: rest => rest
    | chars => chars
  if Chars.isDigits digits then
    let n := Chars.natOfDigits digits
    if n < 2 ^ (64 : Nat) then some n else none
  else none

/-- Paths are not empty, and a width is a number. -/
def checkValue (parameter : Parameter) (value : String) : Except UsageFault Unit :=
  match parameter with
  | .graph | .output | .config => if value = "" then throw .missingValue else pure ()
  | .indent => if (natural? value).isNone then throw .invalidValue else pure ()
  | _ => pure ()

namespace Reading

/-- Every parameter but a reserved word is given once. -/
def store (reading : Reading) (parameter : Parameter) (value : String) :
    Except UsageFault Reading := do
  if parameter ≠ .reserve ∧ (reading.values.lookup parameter).isSome then throw .repeatedOption
  checkValue parameter value
  return { reading with values := reading.values ++ [(parameter, value)] }

/-- Store the pending value. -/
def settle (reading : Reading) : Except UsageFault Reading :=
  match reading.pending with
  | none => .ok reading
  | some (_, none) => .error .missingValue
  | some (parameter, some value) => { reading with pending := none }.store parameter value

def await (reading : Reading) (parameter : Parameter) (value : Option String) :
    Except UsageFault Reading := do
  let reading ← reading.settle
  return { reading with pending := some (parameter, value) }

def flagZeroBased (reading : Reading) : Except UsageFault Reading := do
  let reading ← reading.settle
  if reading.zeroBased then throw .repeatedOption
  return { reading with zeroBased := true }

def help (reading : Reading) : Except UsageFault Reading := do
  let _ ← reading.settle
  throw .helpRequested

/-- An option by its long name, with the value behind an equals sign if there is one. -/
def readLong (reading : Reading) (form : Form) (name : String) (value : Option String) :
    Except UsageFault Reading :=
  if name = "help" then
    if value.isSome then .error .surplusValue else reading.help
  else if name = "zero-based" ∧ form.takesOptions then
    if value.isSome then .error .surplusValue else reading.flagZeroBased
  else match form.long? name, value with
    | some parameter, some value => do (← reading.settle).store parameter value
    | some parameter, none => reading.await parameter none
    | none, _ => .error .unknownArgument

/-- An option by its letter; what follows the letter is its value. -/
def readShort (reading : Reading) (form : Form) (letter : Char) (rest : List Char) :
    Except UsageFault Reading :=
  if letter = 'h' then reading.help
  else if letter = 'o' ∧ form.takesOptions then
    match rest with
    | [] => reading.await .output none
    | '=' :: value => do (← reading.settle).store .output (String.ofList value)
    | value => do (← reading.settle).store .output (String.ofList value)
  else .error .unknownArgument

def readPlain (reading : Reading) (form : Form) (arg : String) : Except UsageFault Reading :=
  if form.takesGraph ∧ ¬ reading.graphSeen then
    { reading with graphSeen := true }.await .graph (some arg)
  else .error .unknownArgument

/-- The arguments of a command. After `--` all of them are plain. -/
def readAll (form : Form) : Bool → Reading → List String → Except UsageFault Reading
  | _, reading, [] => reading.settle
  | true, reading, arg :: rest => do readAll form true (← reading.readPlain form arg) rest
  | false, reading, arg :: rest =>
    match arg.toList with
    | ['-', '-'] => readAll form true reading rest
    | '-' :: '-' :: chars => do
      let name := String.ofList (chars.takeWhile (· != '='))
      let value := match chars.dropWhile (· != '=') with
        | _ :: value => some (String.ofList value)
        | [] => none
      readAll form false (← reading.readLong form name value) rest
    | '-' :: letter :: chars => do
      readAll form false (← reading.readShort form letter chars) rest
    | _ =>
      match reading.pending with
      | some (parameter, none) =>
        readAll form false { reading with pending := some (parameter, some arg) } rest
      | _ => do readAll form false (← reading.readPlain form arg) rest

def graph (reading : Reading) : Except UsageFault String :=
  match reading.values.lookup .graph with
  | some path => .ok path
  | none => .error .missingArgument

def buildOptions (reading : Reading) : Except UsageFault BuildOptions := do
  return {
    graph := ← reading.graph
    output := reading.values.lookup .output
    config := reading.values.lookup .config
    indent := (reading.values.lookup .indent).bind natural?
    zeroBased := reading.zeroBased
    beforeStatement := reading.values.lookup .beforeStatement
    afterStatement := reading.values.lookup .afterStatement
    loopTrap := reading.values.lookup .loopTrap
    reserved := (reading.values.filter (·.1 = .reserve)).map Prod.snd }

end Reading

def commandNames : List String := ["build", "check", "kinds", "help"]

/-- `help` takes at most the name of a command. -/
def readHelp : List String → UsageFault
  | [] => .helpRequested
  | [name] => if commandNames.contains name then .helpRequested else .unknownCommand
  | _ => .unknownCommand

/-- An option in the place of a command. -/
def readLeadingOption : List Char → UsageFault
  | '-' :: name =>
    let given := name.takeWhile (· != '=')
    let known := given = "help".toList ∨ given = "version".toList
    if ¬ known then .unknownArgument
    else if name.contains '=' then .surplusValue
    else if given = "help".toList then .helpRequested
    else .versionRequested
  | 'h' :: _ => .helpRequested
  | 'V' :: _ => .versionRequested
  | _ => .unknownArgument

/-- After `--` no command can be named. -/
def readEscaped : List String → UsageFault
  | [] => .noArguments
  | name :: _ => if commandNames.contains name then .unknownArgument else .unknownCommand

def parse : List String → Except UsageFault Request
  | [] => .error .noArguments
  | "build" :: rest => do
    let reading ← Reading.readAll { takesOptions := true } false {} rest
    return .build (← reading.buildOptions)
  | "check" :: rest => do
    let reading ← Reading.readAll {} false {} rest
    return .check (← reading.graph)
  | "kinds" :: rest => do
    let _ ← Reading.readAll { takesGraph := false } false {} rest
    return .kinds
  | "help" :: rest => .error (readHelp rest)
  | "--" :: rest => .error (readEscaped rest)
  | arg :: _ =>
    match arg.toList with
    | '-' :: c :: rest => .error (readLeadingOption (c :: rest))
    | _ => .error .unknownCommand

/-- Text from the command line is one line of code, with or without its line break. -/
def asLine (code : String) : String :=
  if code.toList.getLast? = some '\n' then code else code ++ "\n"

/-- The options of a command line, on top of a configuration. -/
def BuildOptions.configure (options : BuildOptions) (config : Config) : Config :=
  { indentUnit := (options.indent.map Config.spaces).getD config.indentUnit
    reservedWords := config.reservedWords ++ options.reserved
    beforeStatement := (options.beforeStatement.map asLine).or config.beforeStatement
    afterStatement := (options.afterStatement.map asLine).or config.afterStatement
    loopTrap := (options.loopTrap.map asLine).or config.loopTrap
    oneBased := config.oneBased && !options.zeroBased }

end BlockSynth.Command
