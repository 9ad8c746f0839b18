import BlockSynth.Catalog
import BlockSynth.Zig.Base

/-! # Lists

Lists are `std.ArrayList(f32)` values. Helpers take the slice of their items and
answer with a list of their own.
-/
namespace BlockSynth.Zig

def newList : String := "std.ArrayList(f32).init(allocator)"

def noItems : String := "&[_]f32\x7b\x7d"

/-- The items of the list in a slot. -/
def itemsOr (slot : String) : Script String := do
  match ← .askValue slot .unaryPostfix with
  | some list => return list ++ ".items"
  | none => return noItems

/-- The list in a slot, or a new one. -/
def listOr (slot : String) : Script String := do
  match ← .askValue slot .unaryPostfix with
  | some list => return list
  | none =>
    requireAllocator
    return newList

def emptyList (_ : Config) (_ : Node) : Script Emission := do
  requireAllocator
  return .value newList .unaryPostfix

def copyTemplate : String :=
  routine "(values: []const f32) !std.ArrayList(f32)"
    ["var list = std.ArrayList(f32).init(allocator);",
      "try list.appendSlice(values);",
      "return list;"]

/-- A new list with the given items. -/
def copyItems (items : String) : Script String := do
  requireAllocator
  let helper ← .askHelper "lists_create_with" copyTemplate
  return s!"try {helper}({items})"

def listOf (_ : Config) (node : Node) : Script Emission := do
  let items ← .valuesOr .none "0" (itemSlots node)
  let values := if items.isEmpty then noItems else "&[_]f32\x7b " ++ Text.join ", " items ++ " \x7d"
  return .value (← copyItems values) .unaryPrefix

def repeatTemplate : String :=
  routine "(value: f32, n: f32) !std.ArrayList(f32)"
    ["var list = std.ArrayList(f32).init(allocator);",
      "try list.appendNTimes(value, @intFromFloat(n));",
      "return list;"]

def repeatItem (_ : Config) (_ : Node) : Script Emission := do
  let item ← .valueOr "ITEM" .none "0"
  let times ← .valueOr "NUM" .none "0"
  requireAllocator
  let helper ← .askHelper "lists_repeat" repeatTemplate
  return .value s!"try {helper}({item}, {times})" .unaryPrefix

def listLength (_ : Config) (_ : Node) : Script Emission := do
  let list ← listOr "VALUE"
  return .value s!"{list}.items.len" .unaryPostfix

def listIsEmpty (_ : Config) (_ : Node) : Script Emission := do
  let list ← listOr "VALUE"
  return .value s!"{list}.items.len == 0" .equality

/-- Each direction has a helper of its own. -/
def sortTemplate (order : String) : String :=
  routine "(values: []const f32) !std.ArrayList(f32)"
    ["var list = std.ArrayList(f32).init(allocator);",
      "try list.appendSlice(values);",
      s!"std.mem.sort(f32, list.items, \x7b\x7d, std.sort.{order}(f32));",
      "return list;"]

/-- Lists hold numbers, so every way of sorting goes by value. -/
def sortType? : String → Option Unit
  | "NUMERIC" => some ()
  | "TEXT" => some ()
  | "IGNORE_CASE" => some ()
  | _ => none

def sortOrder? (direction : Option Binary64) : Option String :=
  match direction.bind Binary64.integer? with
  | some 1 => some "asc"
  | some (-1) => some "desc"
  | _ => none

def sortList (_ : Config) (node : Node) : Script Emission := do
  choose node "TYPE" (sortType? (← option node "TYPE"))
  let order ← choose node "DIRECTION" (sortOrder? (node.fieldNumber "DIRECTION"))
  let items ← itemsOr "LIST"
  requireAllocator
  let helper ← .askHelper "lists_sort" (sortTemplate order)
  return .value s!"try {helper}({items})" .unaryPrefix

def splitTemplate : String :=
  routine "(text: []const u8, delimiter: []const u8) !std.ArrayList([]const u8)" (
    ["var parts = std.ArrayList([]const u8).init(allocator);",
      "var it = std.mem.splitSequence(u8, text, delimiter);"] ++
    block "while (it.next()) |part|" ["try parts.append(part);"] ++
    ["return parts;"])

def isSplit? : String → Option Bool
  | "SPLIT" => some true
  | "JOIN" => some false
  | _ => none

/-- Text into a list, or a list into text. -/
def splitOrJoin (_ : Config) (node : Node) : Script Emission := do
  let splits ← choose node "MODE" (isSplit? (← option node "MODE"))
  let delimiter ← .valueOr "DELIM" .none emptyText
  requireAllocator
  if splits then
    let text ← .valueOr "INPUT" .none emptyText
    let helper ← .askHelper "lists_split" splitTemplate
    return .value s!"try {helper}({text}, {delimiter})" .unaryPrefix
  else
    let items ← itemsOr "INPUT"
    return .value s!"try std.mem.join(allocator, {delimiter}, {items})" .unaryPrefix

def reverseListTemplate : String :=
  routine "(values: []const f32) !std.ArrayList(f32)"
    ["var list = std.ArrayList(f32).init(allocator);",
      "try list.appendSlice(values);",
      "std.mem.reverse(f32, list.items);",
      "return list;"]

def reverseList (_ : Config) (_ : Node) : Script Emission := do
  let items ← itemsOr "LIST"
  requireAllocator
  let helper ← .askHelper "lists_reverse" reverseListTemplate
  return .value s!"try {helper}({items})" .unaryPrefix

def sequences : List (String × Emitter) :=
  [("lists_create_empty", ⟨emptyList, false⟩), ("lists_create_with", ⟨listOf, false⟩),
    ("lists_repeat", ⟨repeatItem, false⟩), ("lists_length", ⟨listLength, false⟩),
    ("lists_isEmpty", ⟨listIsEmpty, false⟩), ("lists_sort", ⟨sortList, false⟩),
    ("lists_split", ⟨splitOrJoin, false⟩), ("lists_reverse", ⟨reverseList, false⟩)]

end BlockSynth.Zig
