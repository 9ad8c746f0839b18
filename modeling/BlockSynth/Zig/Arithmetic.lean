import BlockSynth.Catalog
import BlockSynth.Zig.Base

/-! # Numbers and arithmetic

Builtins are calls and rank like them. Angles are in degrees, so trigonometry is
converted around the builtin.
-/
namespace BlockSynth.Zig

def infinity : String := "std.math.inf(f32)"

/-- Numbers that Zig has no literal for come from its standard library. -/
def number (_ : Config) (node : Node) : Script Emission :=
  match (node.fieldNumber "NUM").getD (.zero false) with
  | .nan => do
    requireStd
    return .value "std.math.nan(f32)" .unaryPostfix
  | .infinite negative => do
    requireStd
    return if negative then .value ("-" ++ infinity) .unaryPrefix else .value infinity .unaryPostfix
  | value => .done (.value value.codeText (if value.isNegative then .unaryPrefix else .atomic))

def operator? : String → Option (String × Rank)
  | "ADD" => some ("+", .additive)
  | "MINUS" => some ("-", .additive)
  | "MULTIPLY" => some ("*", .multiplicative)
  | "DIVIDE" => some ("/", .multiplicative)
  | _ => none

def power : Script Emission := do
  requireStd
  let base ← .valueOr "A" .none "0"
  let exponent ← .valueOr "B" .none "0"
  return .value s!"std.math.pow(f32, {base}, {exponent})" .unaryPostfix

def operate (_ : Config) (node : Node) : Script Emission := do
  let name ← option node "OP"
  if name = "POWER" then power
  else
    let (operator, rank) ← choose node "OP" (operator? name)
    let a ← .valueOr "A" rank "0"
    let b ← .valueOr "B" rank "0"
    return .value s!"{a} {operator} {b}" rank

/-- A minus sign; two in a row are kept apart. -/
def minus (operand : String) : String :=
  if operand.toList.head? = some '-' then s!"- {operand}" else s!"-{operand}"

def builtin? : String → Option String
  | "ABS" => some "@abs"
  | "ROOT" => some "@sqrt"
  | "LN" => some "@log"
  | "LOG10" => some "@log10"
  | "EXP" => some "@exp"
  | "ROUND" => some "@round"
  | "ROUNDUP" => some "@ceil"
  | "ROUNDDOWN" => some "@floor"
  | _ => none

def sine? : String → Option String
  | "SIN" => some "@sin"
  | "COS" => some "@cos"
  | "TAN" => some "@tan"
  | _ => none

def arcsine? : String → Option String
  | "ASIN" => some "std.math.asin"
  | "ACOS" => some "std.math.acos"
  | "ATAN" => some "std.math.atan"
  | _ => none

/-- Functions that need the standard library. -/
def libraryFunction (node : Node) (name : String) : Script Emission := do
  requireStd
  if name = "POW10" then
    let operand ← .valueOr "NUM" .none "0"
    return .value s!"std.math.pow(f32, 10, {operand})" .unaryPostfix
  else match sine? name, arcsine? name with
    | some function, _ =>
      let operand ← .valueOr "NUM" .multiplicative "0"
      return .value s!"{function}({operand} / 180 * std.math.pi)" .unaryPostfix
    | none, some function =>
      let operand ← .valueOr "NUM" .none "0"
      return .value s!"{function}({operand}) / std.math.pi * 180" .multiplicative
    | none, none => unknownOption node "OP"

def apply (_ : Config) (node : Node) : Script Emission := do
  let name ← option node "OP"
  if name = "NEG" then
    let operand ← .valueOr "NUM" .unaryPrefix "0"
    return .value (minus operand) .unaryPrefix
  else match builtin? name with
    | some function =>
      let operand ← .valueOr "NUM" .none "0"
      return .value s!"{function}({operand})" .unaryPostfix
    | none => libraryFunction node name

def constant? : String → Option String
  | "PI" => some "std.math.pi"
  | "E" => some "std.math.e"
  | "GOLDEN_RATIO" => some "std.math.phi"
  | "SQRT2" => some "std.math.sqrt2"
  | "SQRT1_2" => some "std.math.sqrt1_2"
  | "INFINITY" => some infinity
  | _ => none

def constant (_ : Config) (node : Node) : Script Emission := do
  let code ← choose node "CONSTANT" (constant? (← option node "CONSTANT"))
  requireStd
  return .value code .unaryPostfix

def isPrime : String :=
  routine "(n: f32) bool" (
    block "if (n == 2 or n == 3)" ["return true;"] ++
    block ("if (std.math.isNan(n) or n <= 1 or @mod(n, 1) != 0 or @mod(n, 2) == 0 or " ++
      "@mod(n, 3) == 0)") ["return false;"] ++
    ["var x: f32 = 6;"] ++
    block "while (x <= @sqrt(n) + 1) : (x += 6)"
      (block "if (@mod(n, x - 1) == 0 or @mod(n, x + 1) == 0)" ["return false;"]) ++
    ["return true;"])

/-- The test of a remainder. -/
def remainderTest? : String → Option (String × String)
  | "EVEN" => some ("2", "0")
  | "ODD" => some ("2", "1")
  | "WHOLE" => some ("1", "0")
  | _ => none

def signTest? : String → Option String
  | "POSITIVE" => some ">"
  | "NEGATIVE" => some "<"
  | _ => none

/-- Nothing is divisible by a literal zero. -/
def divisible : Script Emission := do
  let divisor ← .valueOr "DIVISOR" .none "0"
  if divisor = "0" then return .value "false" .atomic
  else
    let number ← .valueOr "NUMBER_TO_CHECK" .none "0"
    return .value s!"@mod({number}, {divisor}) == 0" .equality

def prime : Script Emission := do
  requireStd
  let helper ← .askHelper "math_isPrime" isPrime
  let number ← .valueOr "NUMBER_TO_CHECK" .none "0"
  return .value s!"{helper}({number})" .unaryPostfix

def testProperty (_ : Config) (node : Node) : Script Emission := do
  let property ← option node "PROPERTY"
  match remainderTest? property, signTest? property with
  | some (divisor, rest), _ =>
    let number ← .valueOr "NUMBER_TO_CHECK" .none "0"
    return .value s!"@mod({number}, {divisor}) == {rest}" .equality
  | none, some operator =>
    let number ← .valueOr "NUMBER_TO_CHECK" .relational "0"
    return .value s!"{number} {operator} 0" .relational
  | none, none =>
    if property = "DIVISIBLE_BY" then divisible
    else if property = "PRIME" then prime
    else unknownOption node "PROPERTY"

def modulo (_ : Config) (_ : Node) : Script Emission := do
  let dividend ← .valueOr "DIVIDEND" .none "0"
  let divisor ← .valueOr "DIVISOR" .none "0"
  return .value s!"@mod({dividend}, {divisor})" .unaryPostfix

/-- Without an upper bound there is none. -/
def constrain (_ : Config) (_ : Node) : Script Emission := do
  let value ← .valueOr "VALUE" .none "0"
  let low ← .valueOr "LOW" .none "0"
  let high ← match ← .askValue "HIGH" .none with
    | some high => pure high
    | none => do
      requireStd
      pure infinity
  return .value s!"@min(@max({value}, {low}), {high})" .unaryPostfix

def randomIntTemplate : String :=
  routine "(a: f32, b: f32) f32"
    ["const low: i32 = @intFromFloat(@min(a, b));",
      "const high: i32 = @intFromFloat(@max(a, b));",
      "return @floatFromInt(std.crypto.random.intRangeAtMost(i32, low, high));"]

def randomInt (_ : Config) (_ : Node) : Script Emission := do
  requireStd
  let helper ← .askHelper "math_random_int" randomIntTemplate
  let low ← .valueOr "FROM" .none "0"
  let high ← .valueOr "TO" .none "0"
  return .value s!"{helper}({low}, {high})" .unaryPostfix

def randomFraction (_ : Config) (_ : Node) : Script Emission := do
  requireStd
  return .value "std.crypto.random.float(f32)" .unaryPostfix

def angle (_ : Config) (_ : Node) : Script Emission := do
  requireStd
  let x ← .valueOr "X" .none "0"
  let y ← .valueOr "Y" .none "0"
  return .value s!"std.math.atan2({y}, {x}) / std.math.pi * 180" .multiplicative

def arithmetic : List (String × Emitter) :=
  [("math_number", ⟨number, false⟩), ("math_arithmetic", ⟨operate, false⟩),
    ("math_single", ⟨apply, false⟩), ("math_constant", ⟨constant, false⟩),
    ("math_number_property", ⟨testProperty, false⟩), ("math_modulo", ⟨modulo, false⟩),
    ("math_constrain", ⟨constrain, false⟩), ("math_random_int", ⟨randomInt, false⟩),
    ("math_random_float", ⟨randomFraction, false⟩), ("math_atan2", ⟨angle, false⟩)]

def arithmeticAliases : List (String × String) :=
  [("math_round", "math_single"), ("math_trig", "math_single")]

end BlockSynth.Zig
