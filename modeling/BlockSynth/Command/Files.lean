import BlockSynth.Text.Lines

/-! # Files in memory

A directory of text files, named by their paths from it. The directories below it are
those that lead to one of its files. A name that starts at the root of the file system
leads out of it, and nothing is found there.
-/
namespace BlockSynth.Command

/-- Why a file cannot be read or written. -/
inductive FileFault
  | notFound
  | notDirectory
  | isDirectory
  deriving DecidableEq, Repr

def FileFault.message : FileFault → String
  | notFound => "No such file or directory (os error 2)"
  | notDirectory => "Not a directory (os error 20)"
  | isDirectory => "Is a directory (os error 21)"

abbrev Path := List (List Char)

/-- The parts of a text between its slashes. -/
def splitSlashes : List Char → Path
  | [] => [[]]
  | c :: rest =>
    if c = '/' then [] :: splitSlashes rest
    else match splitSlashes rest with
      | [] => [[c]]
      | part :: more => (c :: part) :: more

/-- The names on the way to a file. -/
def pathOf (name : String) : Path :=
  (splitSlashes name.toList).filter fun part => part ≠ [] ∧ part ≠ ['.']

/-- Whether a name can only stand for a directory. -/
def namesDirectory (name : String) : Bool :=
  match (splitSlashes name.toList).getLast? with
  | some part => part = [] || part = ['.']
  | none => false

/-- Whether a name leads out of the directory, or nowhere. -/
def namesOutside (name : String) : Bool :=
  name.isEmpty || (name.startsWith "/" && pathOf name ≠ [])

abbrev Files := List (Path × String)

namespace Files

def ofList (files : List (String × String)) : Files :=
  files.map fun (name, text) => (pathOf name, text)

def isDirectory (files : Files) (path : Path) : Bool :=
  path.isEmpty || files.any fun file => path.isPrefixOf file.1 && path ≠ file.1

/-- Whether the way to a path goes through a file. -/
def isBlocked (files : Files) (path : Path) : Bool :=
  files.any fun file => file.1.isPrefixOf path && file.1 ≠ path

def read (files : Files) (name : String) : Except FileFault String :=
  let path := pathOf name
  if namesOutside name then .error .notFound
  else if files.isDirectory path then .error .isDirectory
  else if files.isBlocked path then .error .notDirectory
  else match files.lookup path with
    | some text => if namesDirectory name then .error .notDirectory else .ok text
    | none => .error .notFound

def write (files : Files) (name text : String) : Except FileFault Files :=
  let path := pathOf name
  if namesOutside name then .error .notFound
  else if files.isDirectory path then .error .isDirectory
  else if files.isBlocked path then .error .notDirectory
  else if ¬ files.isDirectory path.dropLast then .error .notFound
  else if namesDirectory name then
    .error (if (files.lookup path).isSome then .notDirectory else .isDirectory)
  else .ok ((path, text) :: files.filter (·.1 ≠ path))

end Files

end BlockSynth.Command
