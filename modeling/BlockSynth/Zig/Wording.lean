import BlockSynth.Catalog
import BlockSynth.Zig.Base

/-! # Text

Operations that build new text allocate and can therefore fail.
-/
namespace BlockSynth.Zig

def textLiteral (_ : Config) (node : Node) : Script Emission :=
  .done (.value (quote (optionOr node "TEXT" "")) .atomic)

/-- Text of several lines is a concatenation, text of one line a literal. -/
def textLines (_ : Config) (node : Node) : Script Emission :=
  let code := quotes.quoteLines (optionOr node "TEXT" "")
  .done (.value code (if code.toList.contains '\n' then .additive else .atomic))

/-- The arguments printed one after the other into new text. -/
def formatCall (arguments : List String) : String :=
  let pattern := String.join (arguments.map fun _ => "\x7bany\x7d")
  let listed := Text.join ", " arguments
  s!"try std.fmt.allocPrint(allocator, \"{pattern}\", .\x7b {listed} \x7d)"

def joinText (_ : Config) (node : Node) : Script Emission :=
  if node.mutation.items = 0 then .done (.value emptyText .atomic)
  else do
    let parts ← .valuesOr .none emptyText (itemSlots node)
    requireAllocator
    return .value (formatCall parts) .unaryPrefix

def appendText (_ : Config) (node : Node) : Script Emission := do
  let name ← variableOf node
  let value ← .valueOr "TEXT" .none emptyText
  requireAllocator
  let joined := formatCall [name, value]
  return .statement s!"{name} = {joined};\n"

def textLength (_ : Config) (_ : Node) : Script Emission := do
  let text ← .valueOr "VALUE" .unaryPostfix emptyText
  return .value s!"{text}.len" .unaryPostfix

def textIsEmpty (_ : Config) (_ : Node) : Script Emission := do
  let text ← .valueOr "VALUE" .unaryPostfix emptyText
  return .value s!"{text}.len == 0" .equality

def titleCaseTemplate : String :=
  routine "(text: []const u8) ![]u8" (
    ["const out = try allocator.alloc(u8, text.len);",
      "var start_of_word = true;"] ++
    block "for (text, 0..) |ch, i|"
      ["out[i] = if (start_of_word) std.ascii.toUpper(ch) else std.ascii.toLower(ch);",
        "start_of_word = std.ascii.isWhitespace(ch);"] ++
    ["return out;"])

inductive LetterCase
  | upper
  | lower
  | title

def letterCase? : String → Option LetterCase
  | "UPPERCASE" => some .upper
  | "LOWERCASE" => some .lower
  | "TITLECASE" => some .title
  | _ => none

def changeCase (_ : Config) (node : Node) : Script Emission := do
  let letterCase ← choose node "CASE" (letterCase? (← option node "CASE"))
  let text ← .valueOr "TEXT" .none emptyText
  requireAllocator
  match letterCase with
  | .upper => return .value s!"try std.ascii.allocUpperString(allocator, {text})" .unaryPrefix
  | .lower => return .value s!"try std.ascii.allocLowerString(allocator, {text})" .unaryPrefix
  | .title =>
    let helper ← .askHelper "text_toTitleCase" titleCaseTemplate
    return .value s!"try {helper}({text})" .unaryPrefix

def trimFunction? : String → Option String
  | "LEFT" => some "trimLeft"
  | "RIGHT" => some "trimRight"
  | "BOTH" => some "trim"
  | _ => none

def trimText (_ : Config) (node : Node) : Script Emission := do
  let function ← choose node "MODE" (trimFunction? (← option node "MODE"))
  let text ← .valueOr "TEXT" .none emptyText
  requireStd
  return .value s!"std.mem.{function}(u8, {text}, \" \")" .unaryPostfix

/-- Whether a node evaluates to text. -/
def producesText (node : Node) : Bool :=
  if ["text_prompt", "text_prompt_ext"].contains node.kind then
    node.fieldText "TYPE" != some "NUMBER"
  else
    ["text", "text_multiline", "text_join", "text_charAt", "text_getSubstring", "text_changeCase",
      "text_trim", "text_replace", "text_reverse", "colour_picker", "colour_random", "colour_rgb",
      "colour_blend"].contains node.kind

/-- Text is printed as such, anything else in the default format. -/
def print (_ : Config) (node : Node) : Script Emission := do
  let plain := (node.input "TEXT").all producesText
  let specifier := if plain then "\x7bs\x7d" else "\x7bany\x7d"
  let message ← .valueOr "TEXT" .none emptyText
  requireStd
  return .statement s!"std.debug.print(\"{specifier}\\n\", .\x7b {message} \x7d);\n"

def promptTemplate : String :=
  routine "(message: []const u8) ![]const u8"
    ["std.debug.print(\"\x7bs\x7d\", .\x7b message \x7d);",
      "const line = try std.io.getStdIn().reader().readUntilDelimiterAlloc(allocator, '\\n', 1024);",
      "return std.mem.trimRight(u8, line, \"\\r\");"]

def asksNumber? : String → Option Bool
  | "TEXT" => some false
  | "NUMBER" => some true
  | _ => none

/-- The message of a prompt is in a field or in a slot, depending on the kind. -/
def promptMessage (node : Node) : Script String :=
  if node.kind = "text_prompt" then .done (quote (optionOr node "TEXT" ""))
  else .valueOr "TEXT" .none emptyText

def prompt (_ : Config) (node : Node) : Script Emission := do
  let isNumber ← choose node "TYPE" (asksNumber? (optionOr node "TYPE" "TEXT"))
  let message ← promptMessage node
  requireAllocator
  let helper ← .askHelper "text_prompt" promptTemplate
  let code := s!"try {helper}({message})"
  return .value (if isNumber then s!"try std.fmt.parseFloat(f32, {code})" else code) .unaryPrefix

def countTemplate : String :=
  routine "(haystack: []const u8, needle: []const u8) f32" (
    block "if (needle.len == 0)" ["return @floatFromInt(haystack.len + 1);"] ++
    ["return @floatFromInt(std.mem.count(u8, haystack, needle));"])

def countText (_ : Config) (_ : Node) : Script Emission := do
  let text ← .valueOr "TEXT" .none emptyText
  let sub ← .valueOr "SUB" .none emptyText
  requireStd
  let helper ← .askHelper "text_count" countTemplate
  return .value s!"{helper}({text}, {sub})" .unaryPostfix

def replaceText (_ : Config) (_ : Node) : Script Emission := do
  let text ← .valueOr "TEXT" .none emptyText
  let old ← .valueOr "FROM" .none emptyText
  let new ← .valueOr "TO" .none emptyText
  requireAllocator
  return .value s!"try std.mem.replaceOwned(u8, allocator, {text}, {old}, {new})" .unaryPrefix

def reverseTextTemplate : String :=
  routine "(text: []const u8) ![]u8"
    ["const out = try allocator.dupe(u8, text);",
      "std.mem.reverse(u8, out);",
      "return out;"]

def reverseText (_ : Config) (_ : Node) : Script Emission := do
  let text ← .valueOr "TEXT" .none emptyText
  requireAllocator
  let helper ← .askHelper "text_reverse" reverseTextTemplate
  return .value s!"try {helper}({text})" .unaryPrefix

def wordings : List (String × Emitter) :=
  [("text", ⟨textLiteral, false⟩), ("text_multiline", ⟨textLines, false⟩),
    ("text_join", ⟨joinText, false⟩), ("text_append", ⟨appendText, false⟩),
    ("text_length", ⟨textLength, false⟩), ("text_isEmpty", ⟨textIsEmpty, false⟩),
    ("text_changeCase", ⟨changeCase, false⟩), ("text_trim", ⟨trimText, false⟩),
    ("text_print", ⟨print, false⟩), ("text_prompt_ext", ⟨prompt, false⟩),
    ("text_count", ⟨countText, false⟩), ("text_replace", ⟨replaceText, false⟩),
    ("text_reverse", ⟨reverseText, false⟩)]

def wordingAliases : List (String × String) :=
  [("text_prompt", "text_prompt_ext")]

end BlockSynth.Zig
