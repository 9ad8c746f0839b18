/-! # Definitions

What a program needs before its body: imports, the block of variables, helper routines and
procedures. They are kept in the order in which they first came up, and a definition that is given
again takes the place of the old one.
-/
namespace BlockSynth

inductive DefinitionKey
  | importing (tag : String)
  | variableBlock
  | helper (name : String)
  | procedure (name : String)
  deriving DecidableEq, Repr

def DefinitionKey.isImport : DefinitionKey → Bool
  | .importing _ => true
  | _ => false

structure Definitions where
  entries : List (DefinitionKey × String) := []
  deriving DecidableEq, Repr

namespace Definitions

def get? (definitions : Definitions) (key : DefinitionKey) : Option String :=
  definitions.entries.lookup key

def contains (definitions : Definitions) (key : DefinitionKey) : Bool :=
  definitions.entries.any (·.1 == key)

def size (definitions : Definitions) : Nat :=
  definitions.entries.length

def isEmpty (definitions : Definitions) : Bool :=
  definitions.entries.isEmpty

/-- Replace the text under a key where it stands, or add the entry at the end. -/
def insertEntry (key : DefinitionKey) (text : String) :
    List (DefinitionKey × String) → List (DefinitionKey × String)
  | [] => [(key, text)]
  | entry :: rest =>
    if entry.1 = key then (key, text) :: rest else entry :: insertEntry key text rest

def insert (definitions : Definitions) (key : DefinitionKey) (text : String) : Definitions :=
  ⟨insertEntry key text definitions.entries⟩

/-- Add an entry unless its key is there, and say whether it was added. -/
def insertIfAbsent (definitions : Definitions) (key : DefinitionKey) (text : String) :
    Bool × Definitions :=
  if definitions.contains key then (false, definitions)
  else (true, definitions.insert key text)

def imports (definitions : Definitions) : List String :=
  (definitions.entries.filter (·.1.isImport)).map Prod.snd

def others (definitions : Definitions) : List String :=
  (definitions.entries.filter (!·.1.isImport)).map Prod.snd

end Definitions

end BlockSynth
