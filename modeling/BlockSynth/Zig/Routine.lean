import BlockSynth.Catalog
import BlockSynth.Target
import BlockSynth.Zig.Base

/-! # Procedures

A procedure is defined at file scope and adds nothing where it stands. Every procedure can fail, so
calls are tried.
-/
namespace BlockSynth.Zig

def commentMark : String := "// "

/-- The end of a procedure that returns a value. After a body the injected text runs once more. -/
def closing (config : Config) (injected branch : String) : Option String → String
  | some value =>
    (if branch = "" then "" else injected) ++ s!"{config.indentUnit}return {value};\n"
  | none => ""

def defineProcedure (config : Config) (node : Node) : Script Emission := do
  let name ← .procedureName (← option node "NAME")
  let indent := Text.prefixLines config.indentUnit
  let injected := indent (config.before quotes node.id ++ config.after quotes node.id)
  let trap := indent (config.trap quotes node.id)
  let branch ← .askStatements "STACK"
  let result ← .askValue "RETURN" .none
  let words ← .variableNames node.mutation.params
  let params := Text.join ", " (words.map (· ++ ": f32"))
  let returns := if result.isSome then "!f32" else "!void"
  let body := injected ++ trap ++ branch ++ closing config injected branch result
  let head := s!"fn {name}({params}) {returns}"
  .defineText name (node.comments commentMark ++ braces head body)
  return .nothing

def callCode (node : Node) : Script String := do
  let name ← .procedureName (← option node "NAME")
  let slots := (List.range node.mutation.params.length).map fun i => s!"ARG{i}"
  let arguments := Text.join ", " (← .valuesOr .none "null" slots)
  return s!"try {name}({arguments})"

def callForValue (_ : Config) (node : Node) : Script Emission := do
  return .value (← callCode node) .unaryPrefix

def callForEffect (_ : Config) (node : Node) : Script Emission := do
  let call ← callCode node
  return .statement s!"{call};\n"

/-- Return early. What is injected before the statement runs before the test, what is injected after
it only on the way out. -/
def returnIf (config : Config) (node : Node) : Script Emission := do
  let condition ← .valueOr "CONDITION" .none "false"
  let result ←
    if node.mutation.hasReturn || (node.input "VALUE").isSome then do
      let value ← .valueOr "VALUE" .none "null"
      pure (" " ++ value)
    else pure ""
  let lead := Text.prefixLines config.indentUnit (config.after quotes node.id)
  let body := lead ++ s!"{config.indentUnit}return{result};\n"
  return .statement (config.before quotes node.id ++ braces s!"if ({condition})" body ++ "\n")

def routines : List (String × Emitter) :=
  [("procedures_defreturn", ⟨defineProcedure, true⟩),
    ("procedures_callreturn", ⟨callForValue, false⟩),
    ("procedures_callnoreturn", ⟨callForEffect, false⟩),
    ("procedures_ifreturn", ⟨returnIf, true⟩)]

def routineAliases : List (String × String) :=
  [("procedures_defnoreturn", "procedures_defreturn")]

end BlockSynth.Zig
