import BlockSynth.Name.Registry
import BlockSynth.Program.Definitions
import BlockSynth.Text.Lines
import BlockSynth.Text.Replace

/-! # Helper routines

Some blocks need a small routine in the program. It is asked for by a key, the name it would like to
have, and a template. Every distinct request is realized once; the same key with another template
is another helper with a name of its own.
-/
namespace BlockSynth

namespace Chars

/-- Split off the leading two-space steps of a line, and count them. -/
def leadingSteps : List Char → Nat × List Char
  | ' ' :: ' ' :: rest => let (steps, line) := leadingSteps rest; (steps + 1, line)
  | line => (0, line)

def reindentLine (unit line : List Char) : List Char :=
  let (steps, rest) := leadingSteps line
  (List.replicate steps unit).flatten ++ rest

/-- Write every leading step of two spaces as `unit`. -/
def reindentLines (unit text : List Char) : List Char :=
  joinLines ((splitLines text).map (reindentLine unit))

end Chars

namespace Text

/-- Templates are indented by two spaces; text that is to keep that unit is left alone. -/
def reindent (unit text : String) : String :=
  if unit = "  " then text else String.ofList (Chars.reindentLines unit.toList text.toList)

end Text

/-- How a template spells the name of its helper. -/
def helperMark : String :=
  "\x7b\x7bHELPER\x7d\x7d"

/-- The text of a helper once it has a name. -/
def realizeTemplate (indentUnit template name : String) : String :=
  Text.reindent indentUnit (Text.replace helperMark name (Text.trim template))

/-- The names of the helpers realized so far, by key and template. -/
structure HelperTable where
  realized : List ((String × String) × String) := []
  deriving DecidableEq, Repr

namespace HelperTable

def lookup (helpers : HelperTable) (key template : String) : Option String :=
  helpers.realized.lookup (key, template)

def size (helpers : HelperTable) : Nat :=
  helpers.realized.length

def isEmpty (helpers : HelperTable) : Bool :=
  helpers.realized.isEmpty

end HelperTable

/-- Names, helpers and definitions, which grow together while a program is put together. -/
structure Ledger where
  names : Registry := {}
  helpers : HelperTable := {}
  definitions : Definitions := {}
  deriving DecidableEq, Repr

namespace Ledger

/-- The name of a helper. The first request issues it and records the helper's text. -/
def provide (ledger : Ledger) (indentUnit key template : String) : String × Ledger :=
  match ledger.helpers.lookup key template with
  | some name => (name, ledger)
  | none =>
    let (name, names) := ledger.names.fresh key
    let text := realizeTemplate indentUnit template name
    (name,
      { names
        helpers := ⟨((key, template), name) :: ledger.helpers.realized⟩
        definitions := ledger.definitions.insert (.helper name) text })

def fresh (ledger : Ledger) (name : String) : String × Ledger :=
  let (word, names) := ledger.names.fresh name
  (word, { ledger with names })

def resolve (ledger : Ledger) (space : Namespace) (name : String) : String × Ledger :=
  let (word, names) := ledger.names.resolve space name
  (word, { ledger with names })

def require (ledger : Ledger) (tag text : String) : Ledger :=
  { ledger with definitions := (ledger.definitions.insertIfAbsent (.importing tag) text).2 }

def define (ledger : Ledger) (name text : String) : Ledger :=
  { ledger with definitions := ledger.definitions.insert (.procedure name) text }

end Ledger

end BlockSynth
