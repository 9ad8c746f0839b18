import BlockSynth.Catalog
import BlockSynth.Zig.Base

/-! # Variables

Kinds from untyped workspaces are handled like their typed counterparts.
-/
namespace BlockSynth.Zig

def getVariable (_ : Config) (node : Node) : Script Emission := do
  return .value (← variableOf node) .atomic

def setVariable (_ : Config) (node : Node) : Script Emission := do
  let value ← .valueOr "VALUE" .assignment "0"
  let name ← variableOf node
  return .statement s!"{name} = {value};\n"

def changeVariable (_ : Config) (node : Node) : Script Emission := do
  let delta ← .valueOr "DELTA" .additive "0"
  let name ← variableOf node
  return .statement s!"{name} = {name} + {delta};\n"

def bindings : List (String × Emitter) :=
  [("variables_get", ⟨getVariable, false⟩), ("variables_set", ⟨setVariable, false⟩),
    ("math_change", ⟨changeVariable, false⟩)]

def bindingAliases : List (String × String) :=
  [("variables_get_dynamic", "variables_get"), ("variables_set_dynamic", "variables_set")]

end BlockSynth.Zig
