import BlockSynth.Script

/-! # Emitter catalogs

A catalog knows the emitter of every kind of node that a target handles.
-/
namespace BlockSynth

/-- A self-injecting emitter places the injected text of its statements itself. -/
structure Emitter where
  script : Config → Node → Script Emission
  selfInjecting : Bool := false

structure Catalog where
  entries : List (String × Emitter) := []

namespace Catalog

def find? (catalog : Catalog) (kind : String) : Option Emitter :=
  catalog.entries.lookup kind

def contains (catalog : Catalog) (kind : String) : Bool :=
  (catalog.find? kind).isSome

def size (catalog : Catalog) : Nat :=
  catalog.entries.length

/-- The kinds in order. -/
def kinds (catalog : Catalog) : List String :=
  catalog.entries.map Prod.fst

def register (catalog : Catalog) (kind : String) (emitter : Emitter) : Catalog :=
  ⟨Keyed.insert kind emitter catalog.entries⟩

/-- Let a kind be handled like another one. Without that one nothing happens. -/
def withAlias (catalog : Catalog) (other kind : String) : Catalog :=
  match catalog.find? kind with
  | some emitter => catalog.register other emitter
  | none => catalog

def registerAll (catalog : Catalog) (entries : List (String × Emitter)) : Catalog :=
  entries.foldl (fun catalog entry => catalog.register entry.1 entry.2) catalog

def withAliases (catalog : Catalog) (pairs : List (String × String)) : Catalog :=
  pairs.foldl (fun catalog pair => catalog.withAlias pair.1 pair.2) catalog

end Catalog

end BlockSynth
