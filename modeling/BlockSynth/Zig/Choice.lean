import BlockSynth.Catalog
import BlockSynth.Target
import BlockSynth.Zig.Base

/-! # Choices and truth values

Conditionals place their injected text themselves: what runs before a statement once in front of the
whole, what runs after it at the top of every branch. Text to run after it therefore calls for an
`else` branch.
-/
namespace BlockSynth.Zig

/-- The conditions and branches of a conditional, `lead` being what every branch starts with. -/
def conditionalArms (lead : String) : List Nat → Script (List String)
  | [] => .done []
  | n :: rest => do
    let condition ← .valueOr s!"IF{n}" .none "false"
    let branch ← .askStatements s!"DO{n}"
    let arms ← conditionalArms lead rest
    return braces s!"if ({condition})" (lead ++ branch) :: arms

def hasElse (node : Node) : Bool :=
  node.mutation.hasElse || node.kind == "controls_ifelse" || (node.statement "ELSE").isSome

def conditional (config : Config) (node : Node) : Script Emission := do
  let suffix := config.after quotes node.id
  let lead := Text.prefixLines config.indentUnit suffix
  let arms ← conditionalArms lead (List.range (node.mutation.elseIf + 1))
  let otherwise ←
    if hasElse node || suffix != "" then do
      let branch ← .askStatements "ELSE"
      pure (" " ++ braces "else" (lead ++ branch))
    else pure ""
  return .statement (config.before quotes node.id ++ Text.join " else " arms ++ otherwise ++ "\n")

def comparison? : String → Option (String × Rank)
  | "EQ" => some ("==", .equality)
  | "NEQ" => some ("!=", .equality)
  | "LT" => some ("<", .relational)
  | "LTE" => some ("<=", .relational)
  | "GT" => some (">", .relational)
  | "GTE" => some (">=", .relational)
  | _ => none

/-- All comparisons share one level on which nothing associates, so an operand that is a comparison
is always wrapped. -/
def compare (_ : Config) (node : Node) : Script Emission := do
  let (operator, rank) ← choose node "OP" (comparison? (← option node "OP"))
  let a ← .valueOr "A" .relational "0"
  let b ← .valueOr "B" .relational "0"
  return .value s!"{a} {operator} {b}" rank

structure Connective where
  operator : String
  rank : Rank
  /-- What stands for one missing operand. -/
  identity : String

def connective? : String → Option Connective
  | "AND" => some ⟨"and", .logicalAnd, "true"⟩
  | "OR" => some ⟨"or", .logicalOr, "false"⟩
  | _ => none

def connect (_ : Config) (node : Node) : Script Emission := do
  let c ← choose node "OP" (connective? (← option node "OP"))
  let a ← .askValue "A" c.rank
  let b ← .askValue "B" c.rank
  let missing := if a.isNone && b.isNone then "false" else c.identity
  return .value (a.getD missing ++ " " ++ c.operator ++ " " ++ b.getD missing) c.rank

def negate (_ : Config) (_ : Node) : Script Emission := do
  let operand ← .valueOr "BOOL" .unaryPrefix "true"
  return .value s!"!{operand}" .unaryPrefix

def boolean (_ : Config) (node : Node) : Script Emission := do
  let value ← choose node "BOOL" (node.fieldBool "BOOL")
  return .value (if value then "true" else "false") .atomic

def null (_ : Config) (_ : Node) : Script Emission :=
  .done (.value "null" .atomic)

def ternary (_ : Config) (_ : Node) : Script Emission := do
  let condition ← .valueOr "IF" .none "false"
  let consequence ← .valueOr "THEN" .conditional "null"
  let otherwise ← .valueOr "ELSE" .conditional "null"
  return .value s!"if ({condition}) {consequence} else {otherwise}" .conditional

def choices : List (String × Emitter) :=
  [("controls_if", ⟨conditional, true⟩), ("logic_compare", ⟨compare, false⟩),
    ("logic_operation", ⟨connect, false⟩), ("logic_negate", ⟨negate, false⟩),
    ("logic_boolean", ⟨boolean, false⟩), ("logic_null", ⟨null, false⟩),
    ("logic_ternary", ⟨ternary, false⟩)]

def choiceAliases : List (String × String) :=
  [("controls_ifelse", "controls_if")]

end BlockSynth.Zig
