import BlockSynth.Config
import BlockSynth.Fault
import BlockSynth.Index
import BlockSynth.Name.Registry
import BlockSynth.Rank

/-! # Emission scripts

An emitter does not render its slots itself. It is a script: a tree of requests about its own node,
each with what to do next for every answer, that ends in an emission or a fault. What a script can
do is therefore known without running it.
-/
namespace BlockSynth

/-- The code of a node. -/
inductive Emission
  | value (code : String) (rank : Rank)
  | statement (code : String)
  | nothing
  deriving DecidableEq, Repr

inductive Script (α : Type)
  | done (answer : α)
  | fail (fault : Fault)
  /-- The code of a value slot for a place of the given rank, if there is any. -/
  | value (slot : String) (rank : Rank) (next : Option String → Script α)
  /-- The code of a statement slot, indented by one unit. -/
  | statements (slot : String) (next : String → Script α)
  /-- The same as the body of a loop that the node is. -/
  | loopBody (slot : String) (next : String → Script α)
  /-- The id of the innermost loop around the node. -/
  | enclosingLoop (next : Option String → Script α)
  | resolve (space : Namespace) (name : String) (next : String → Script α)
  | fresh (name : String) (next : String → Script α)
  | helper (key template : String) (next : String → Script α)
  | require (tag text : String) (next : Script α)
  | define (name text : String) (next : Script α)

namespace Script

variable {α β : Type}

def bind (script : Script α) (f : α → Script β) : Script β :=
  match script with
  | done answer => f answer
  | fail fault => fail fault
  | value slot rank next => value slot rank fun code => (next code).bind f
  | statements slot next => statements slot fun code => (next code).bind f
  | loopBody slot next => loopBody slot fun code => (next code).bind f
  | enclosingLoop next => enclosingLoop fun id => (next id).bind f
  | resolve space name next => resolve space name fun word => (next word).bind f
  | fresh name next => fresh name fun word => (next word).bind f
  | helper key template next => helper key template fun name => (next name).bind f
  | require tag text next => require tag text (next.bind f)
  | define name text next => define name text (next.bind f)

instance : Monad Script where
  pure := done
  bind := bind

/-! ### Requests -/

def askValue (slot : String) (rank : Rank) : Script (Option String) :=
  value slot rank done

/-- The code of a value slot, or what stands for an empty one. -/
def valueOr (slot : String) (rank : Rank) (fallback : String) : Script String :=
  value slot rank fun code => done (code.getD fallback)

/-- The codes of several value slots, one after the other. -/
def valuesOr (rank : Rank) (fallback : String) : List String → Script (List String)
  | [] => done []
  | slot :: rest => do
    let code ← valueOr slot rank fallback
    let codes ← valuesOr rank fallback rest
    return code :: codes

def askStatements (slot : String) : Script String :=
  statements slot done

def askLoopBody (slot : String) : Script String :=
  loopBody slot done

def askLoop : Script (Option String) :=
  enclosingLoop done

def variableName (name : String) : Script String :=
  resolve .variable name done

def procedureName (name : String) : Script String :=
  resolve .procedure name done

def variableNames : List String → Script (List String)
  | [] => done []
  | name :: rest => do
    let word ← variableName name
    let words ← variableNames rest
    return word :: words

def freshName (name : String) : Script String :=
  fresh name done

def askHelper (key template : String) : Script String :=
  helper key template done

def requireText (tag text : String) : Script Unit :=
  require tag text (done ())

def defineText (name text : String) : Script Unit :=
  define name text (done ())

/-- The code of an index slot, moved by `delta` from the positions of the graph to positions that
count from zero. An empty slot is the first position. -/
def index (config : Config) (slot : String) (delta : Int) (negate : Bool) (place : Rank) :
    Script String := do
  let delta := if config.oneBased then delta - 1 else delta
  let first := if config.oneBased then "1" else "0"
  let code ← valueOr slot (IndexOperand.operandRank delta negate place) first
  return (IndexOperand.ofCode code).adjust delta negate place

end Script

/-- An expression that can be used more than once, and the statement that has to run before it. -/
structure Cached where
  expr : String
  setup : String := ""
  deriving DecidableEq, Repr

def Cached.isCached (cached : Cached) : Bool :=
  cached.setup != ""

/-- Bind code that is not a single word to a fresh name. -/
def Script.cache (declare : String → String → String) (code name : String) : Script Cached :=
  if Text.isWord code then done ⟨code, ""⟩
  else fresh name fun word => done ⟨word, declare word code⟩

end BlockSynth
