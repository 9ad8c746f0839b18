import BlockSynth.Name.Identifier

/-! # The name registry

A registry gives out identifiers. One that has been issued or reserved is never issued again, so a
name whose identifier is taken gets the first free numeral from 2 on behind it. A name that has been
resolved in a namespace keeps its identifier.
-/
namespace BlockSynth

inductive Namespace
  | variable
  | procedure
  deriving DecidableEq, Repr

structure Registry where
  reserved : List String := []
  issued : List String := []
  resolved : List ((Namespace × String) × String) := []
  deriving DecidableEq, Repr

namespace Registry

def reserve (names : Registry) (words : List String) : Registry :=
  { names with reserved := names.reserved ++ words }

def isReserved (names : Registry) (word : String) : Bool :=
  names.reserved.contains word

def isTaken (names : Registry) (word : String) : Bool :=
  names.issued.contains word || names.reserved.contains word

/-- The candidates for a name are the name itself and then the name with 2, 3, … behind it. -/
def candidate (base : String) : Nat → String
  | 0 => base
  | k + 1 => base ++ toString (k + 2)

/-- The first candidate from the `k`-th on that is free, if one of the next `fuel` is. -/
def firstFree (names : Registry) (base : String) (k : Nat) : Nat → String
  | 0 => candidate base k
  | fuel + 1 =>
    if names.isTaken (candidate base k) then firstFree names base (k + 1) fuel
    else candidate base k

/-- The free identifier for a name. The candidates are distinct, so among one more of them than
there are taken words one is free. -/
def distinct (names : Registry) (name : String) : String :=
  names.firstFree (Text.sanitize name) 0 (names.issued.length + names.reserved.length)

/-- Issue an identifier that is bound to no name. -/
def fresh (names : Registry) (name : String) : String × Registry :=
  let word := names.distinct name
  (word, { names with issued := word :: names.issued })

def lookup (names : Registry) (space : Namespace) (name : String) : Option String :=
  names.resolved.lookup (space, name)

/-- The identifier of a name in a namespace, issued when it is first asked for. -/
def resolve (names : Registry) (space : Namespace) (name : String) : String × Registry :=
  match names.lookup space name with
  | some word => (word, names)
  | none =>
    let (word, names) := names.fresh name
    (word, { names with resolved := ((space, name), word) :: names.resolved })

/-- Resolve names one after the other. -/
def resolveAll (names : Registry) (space : Namespace) : List String → List String × Registry
  | [] => ([], names)
  | name :: rest =>
    let (word, names) := names.resolve space name
    let (words, names) := names.resolveAll space rest
    (word :: words, names)

/-- Forget what has been issued; reserved words stay reserved. -/
def reset (names : Registry) : Registry :=
  { names with issued := [], resolved := [] }

end Registry

end BlockSynth
