import BlockSynth.Command.Run

/-! # The program

Files are read before a command runs and written after it; all between is the command's own.
-/
namespace BlockSynth.Command

/-- The reason that the system gives. -/
def causeOf : IO.Error → String
  | .noFileOrDirectory .. => FileFault.notFound.message
  | error => toString error

/-- The contents of a file, or why they cannot be had. -/
def readContents (path : String) : IO (Except String String) := do
  try
    return .ok (← IO.FS.readFile path)
  catch error =>
    return .error (causeOf error)

/-- The files that a command line reads. -/
def inputsOf (args : List String) : List String :=
  match parse args with
  | .ok (.build options) => options.graph :: options.config.toList
  | .ok (.check path) => [path]
  | _ => []

def carryOut : Plan → IO Outcome
  | .finish outcome => return outcome
  | .save path text => do
    try
      IO.FS.writeFile path text
      return saved
    catch error =>
      return notSaved path (causeOf error)

end BlockSynth.Command

open BlockSynth.Command in
def main (args : List String) : IO UInt32 := do
  let contents ← (inputsOf args).mapM fun path => do return (path, ← readContents path)
  let read := fun path => (contents.lookup path).getD (.error FileFault.notFound.message)
  let outcome ← carryOut (run read args)
  IO.print outcome.stdout
  IO.eprint outcome.stderr
  return outcome.exit.toUInt32
