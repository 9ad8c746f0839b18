import BlockSynth.Catalog
import BlockSynth.Target
import BlockSynth.Zig.Base
import BlockSynth.Zig.Sequence

/-! # Loops

The bounds of a loop are evaluated once, before it. Where all of them are literal numbers the
direction of the loop is decided here, otherwise when the program runs.
-/
namespace BlockSynth.Zig

/-- A loop bound that may be used in every round. -/
def cacheBound (code name : String) : Script Cached :=
  if Text.isNumberLiteral code then .done ⟨code, ""⟩ else cache code name

def literal? (code : String) : Option Binary64 :=
  if Text.isNumberLiteral code then Binary64.ofText? (Text.trim code) else none

/-- How often to repeat: the slot, or the field of a node that has no slot for it. -/
def repeatTimes (node : Node) : Script String :=
  if (node.input "TIMES").isNone && node.kind == "controls_repeat" then
    .done ((node.fieldNumber "TIMES").getD (.zero false)).codeText
  else .valueOr "TIMES" .relational "0"

def repeatLoop (_ : Config) (node : Node) : Script Emission := do
  let times ← repeatTimes node
  let body ← .askLoopBody "DO"
  let counter ← .freshName "count"
  let bound ← cacheBound times "repeat_end"
  let head := s!"while ({counter} < {bound.expr}) : ({counter} += 1)"
  return .statement (bound.setup ++ s!"var {counter}: f32 = 0;\n" ++ braces head body ++ "\n")

def until? : String → Option Bool
  | "WHILE" => some false
  | "UNTIL" => some true
  | _ => none

def whileLoop (_ : Config) (node : Node) : Script Emission := do
  let negated ← choose node "MODE" (until? (optionOr node "MODE" "WHILE"))
  let condition ← .valueOr "BOOL" (if negated then .unaryPrefix else .none) "false"
  let body ← .askLoopBody "DO"
  let condition := if negated then "!" ++ condition else condition
  return .statement (braces s!"while ({condition})" body ++ "\n")

/-- A counting loop between literal bounds. -/
def literalCount (name start finish : String) (first last step : Binary64) (body : String) :
    String :=
  let up := first.le last
  let compare := if up then "<=" else ">="
  let update := if up then "+=" else "-="
  let increment := step.abs.codeText
  let head := s!"while ({name} {compare} {finish}) : ({name} {update} {increment})"
  s!"{name} = {start};\n" ++ braces head body ++ "\n"

/-- A counting loop that finds its direction when it starts. -/
def computedCount (config : Config) (name increment : String) (start finish : Cached)
    (step body : String) : String :=
  let size := match literal? step with
    | some number => number.abs.codeText
    | none => s!"@abs({step})"
  let flip := s!"{config.indentUnit}{increment} = -{increment};\n"
  let goesOn := s!"if ({increment} >= 0) {name} <= {finish.expr} else {name} >= {finish.expr}"
  start.setup ++ finish.setup ++ s!"var {increment}: f32 = {size};\n" ++
    braces s!"if ({start.expr} > {finish.expr})" flip ++ "\n" ++
    s!"{name} = {start.expr};\n" ++
    braces s!"while ({goesOn}) : ({name} += {increment})" body ++ "\n"

def countLoop (config : Config) (node : Node) : Script Emission := do
  let name ← variableOf node
  let start ← .valueOr "FROM" .assignment "0"
  let finish ← .valueOr "TO" .assignment "0"
  let step ← .valueOr "BY" .assignment "1"
  let body ← .askLoopBody "DO"
  match literal? start, literal? finish, literal? step with
  | some first, some last, some stride =>
    return .statement (literalCount name start finish first last stride body)
  | _, _, _ =>
    let start ← cacheBound start (name ++ "_start")
    let finish ← cacheBound finish (name ++ "_end")
    let increment ← .freshName (name ++ "_inc")
    return .statement (computedCount config name increment start finish step body)

def eachLoop (config : Config) (node : Node) : Script Emission := do
  let name ← variableOf node
  let items ← itemsOr "LIST"
  let body ← .askLoopBody "DO"
  let capture ← .freshName (name ++ "_item")
  let take := s!"{config.indentUnit}{name} = {capture};\n"
  return .statement (braces s!"for ({items}) |{capture}|" (take ++ body) ++ "\n")

def jump? : String → Option String
  | "BREAK" => some "break;\n"
  | "CONTINUE" => some "continue;\n"
  | _ => none

/-- Leaving a loop or its round skips the end of its body, so what would be injected there is
injected here. -/
def jump (config : Config) (node : Node) : Script Emission := do
  let keyword ← choose node "FLOW" (jump? (← option node "FLOW"))
  let loop ← .askLoop
  let replay := match loop with
    | some id => config.before quotes id
    | none => ""
  return .statement
    (config.before quotes node.id ++ config.after quotes node.id ++ replay ++ keyword)

def iterations : List (String × Emitter) :=
  [("controls_repeat_ext", ⟨repeatLoop, false⟩), ("controls_whileUntil", ⟨whileLoop, false⟩),
    ("controls_for", ⟨countLoop, false⟩), ("controls_forEach", ⟨eachLoop, false⟩),
    ("controls_flow_statements", ⟨jump, true⟩)]

def iterationAliases : List (String × String) :=
  [("controls_repeat", "controls_repeat_ext")]

end BlockSynth.Zig
