import BlockSynth.Catalog
import BlockSynth.Zig.Sequence

/-! # Slices

Part of a text or list between two positions, each counted from the start or from the end. Code that
may be repeated is sliced in place; a computed operand whose length would be needed goes through a
helper.
-/
namespace BlockSynth.Zig

inductive SliceStart
  | fromStart
  | fromEnd
  | first
  deriving DecidableEq, Repr

inductive SliceEnd
  | fromStart
  | fromEnd
  | last
  deriving DecidableEq, Repr

def SliceStart.tag : SliceStart → String
  | fromStart => "FROM_START"
  | fromEnd => "FROM_END"
  | first => "FIRST"

def SliceEnd.tag : SliceEnd → String
  | fromStart => "FROM_START"
  | fromEnd => "FROM_END"
  | last => "LAST"

def sliceStart? : String → Option SliceStart
  | "FROM_START" => some .fromStart
  | "FROM_END" => some .fromEnd
  | "FIRST" => some .first
  | _ => none

def sliceEnd? : String → Option SliceEnd
  | "FROM_START" => some .fromStart
  | "FROM_END" => some .fromEnd
  | "LAST" => some .last
  | _ => none

/-- The two ends that a node names. -/
def sliceEnds (node : Node) : Script (SliceStart × SliceEnd) := do
  let start ← choose node "WHERE1" (sliceStart? (optionOr node "WHERE1" "FROM_START"))
  let finish ← choose node "WHERE2" (sliceEnd? (optionOr node "WHERE2" "FROM_START"))
  return (start, finish)

/-- Whether a slice can be written without the length of its operand. -/
def lengthFree (start : SliceStart) (finish : SliceEnd) : Bool :=
  start ≠ .fromEnd && finish = .fromStart

/-- Where a slice of `items` starts. -/
def sliceFrom (config : Config) (items : String) : SliceStart → Script String
  | .fromStart => .index config "AT1" 0 false .none
  | .fromEnd => do
    let back ← .index config "AT1" 1 false .additive
    return s!"{items}.len - {back}"
  | .first => .done "0"

/-- A slice of `items` in place; its end is exclusive. -/
def sliceInPlace (config : Config) (items : String) (start : SliceStart) (finish : SliceEnd) :
    Script String := do
  let low ← sliceFrom config items start
  match finish with
  | .fromStart =>
    let high ← .index config "AT2" 1 false .none
    return s!"{items}[{low}..{high}]"
  | .fromEnd =>
    let back ← .index config "AT2" 0 false .additive
    return s!"{items}[{low}..{items}.len - {back}]"
  | .last => return s!"{items}[{low}..]"

/-- A slice of `items` by a helper; its ends are inclusive and told apart by tags. -/
def sliceThrough (config : Config) (key template items : String) (start : SliceStart)
    (finish : SliceEnd) : Script String := do
  let at1 ← .index config "AT1" 0 false .none
  let at2 ← .index config "AT2" 0 false .none
  let helper ← .askHelper key template
  let tag1 := quote start.tag
  let tag2 := quote finish.tag
  return s!"{helper}({items}, {tag1}, {at1}, {tag2}, {at2})"

/-- The bounds that a slicing helper computes from its arguments. -/
def sliceBounds (items : String) : List String :=
  let isTag := fun (parameter tag : String) => s!"if (std.mem.eql(u8, {parameter}, \"{tag}\"))"
  ["var start = at1;"] ++
    blockElse (isTag "where1" "FROM_END") [s!"start = {items}.len - 1 - at1;"]
      (isTag "where1" "FIRST") ["start = 0;"] ++
    ["var end = at2;"] ++
    blockElse (isTag "where2" "FROM_END") [s!"end = {items}.len - 1 - at2;"]
      (isTag "where2" "LAST") [s!"end = {items}.len - 1;"]

def sliceParameters : String :=
  "where1: []const u8, at1: usize, where2: []const u8, at2: usize"

def subtextTemplate : String :=
  routine s!"(text: []const u8, {sliceParameters}) []const u8"
    (sliceBounds "text" ++ ["return text[start .. end + 1];"])

def sublistTemplate : String :=
  routine s!"(values: []const f32, {sliceParameters}) !std.ArrayList(f32)"
    (sliceBounds "values" ++
      ["var list = std.ArrayList(f32).init(allocator);",
        "try list.appendSlice(values[start .. end + 1]);",
        "return list;"])

def subtext (config : Config) (node : Node) : Script Emission := do
  let (start, finish) ← sliceEnds node
  if start = .first && finish = .last then
    return .value (← .valueOr "STRING" .none emptyText) .none
  let text ← .valueOr "STRING" .unaryPostfix emptyText
  if Text.isQuotedWord quotes.delimiter text || lengthFree start finish then
    return .value (← sliceInPlace config text start finish) .unaryPostfix
  else
    requireStd
    let call ← sliceThrough config "text_get_substring" subtextTemplate text start finish
    return .value call .unaryPostfix

def sublist (config : Config) (node : Node) : Script Emission := do
  let (start, finish) ← sliceEnds node
  let list ← listOr "LIST"
  let items := list ++ ".items"
  if Text.isWord list || lengthFree start finish then
    return .value (← copyItems (← sliceInPlace config items start finish)) .unaryPrefix
  else
    requireAllocator
    let call ← sliceThrough config "lists_get_sublist" sublistTemplate items start finish
    return .value ("try " ++ call) .unaryPrefix

def slices : List (String × Emitter) :=
  [("text_getSubstring", ⟨subtext, false⟩), ("lists_getSublist", ⟨sublist, false⟩)]

end BlockSynth.Zig
