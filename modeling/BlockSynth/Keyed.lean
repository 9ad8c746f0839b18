/-! # Lists ordered by name

Fields, slots and catalogs are lists of named entries in the code point order of their names, with
one entry for a name.
-/
namespace BlockSynth.Keyed

variable {α : Type}

/-- Put a value under a name, in place of an earlier one. -/
def insert (name : String) (value : α) : List (String × α) → List (String × α)
  | [] => [(name, value)]
  | entry :: rest =>
    if name < entry.1 then (name, value) :: entry :: rest
    else if name = entry.1 then (name, value) :: rest
    else entry :: insert name value rest

end BlockSynth.Keyed
