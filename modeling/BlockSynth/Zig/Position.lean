import BlockSynth.Catalog
import BlockSynth.Zig.Sequence

/-! # Positions

Finding, reading, writing and removing one element of a list or text. A computed list that would be
evaluated twice is bound to a name first or handed to a helper.
-/
namespace BlockSynth.Zig

inductive Position
  | first
  | last
  | fromStart
  | fromEnd
  | random
  deriving DecidableEq, Repr

def position? : String → Option Position
  | "FIRST" => some .first
  | "LAST" => some .last
  | "FROM_START" => some .fromStart
  | "FROM_END" => some .fromEnd
  | "RANDOM" => some .random
  | _ => none

def positionOf (node : Node) : Option Position :=
  position? (optionOr node "WHERE" "FROM_START")

/-- The index in the slot `AT`, counted from zero. -/
def atStart (config : Config) : Script String :=
  .index config "AT" 0 false .none

/-- What to take off the length for the index in the slot `AT`, counted from the end. -/
def atEnd (config : Config) (place : Rank) : Script String :=
  .index config "AT" 1 false place

/-! ### Finding -/

/-- The position of what a search function finds, or minus one. -/
def findTemplate (parameters search : String) : String :=
  routine s!"({parameters}) f32"
    [s!"const found = {search} orelse return -1;",
      "return @floatFromInt(found);"]

/-- A found position, counted the way the graph counts. -/
def foundPosition (config : Config) (call : String) : Emission :=
  if config.oneBased then .value s!"{call} + 1" .additive else .value call .unaryPostfix

def isLast? : String → Option Bool
  | "FIRST" => some false
  | "LAST" => some true
  | _ => none

def textFinder (last : Bool) : String × String :=
  let parameters := "text: []const u8, sub: []const u8"
  if last then ("text_lastIndexOf", findTemplate parameters "std.mem.lastIndexOf(u8, text, sub)")
  else ("text_indexOf", findTemplate parameters "std.mem.indexOf(u8, text, sub)")

def findText (config : Config) (node : Node) : Script Emission := do
  let (key, template) ← textFinder <$> choose node "END" (isLast? (← option node "END"))
  let sub ← .valueOr "FIND" .none emptyText
  let text ← .valueOr "VALUE" .none emptyText
  requireStd
  let helper ← .askHelper key template
  return foundPosition config s!"{helper}({text}, {sub})"

def itemFinder (last : Bool) : String × String :=
  let parameters := "values: []const f32, item: f32"
  if last then
    ("lists_lastIndexOf",
      findTemplate parameters "std.mem.lastIndexOfScalar(f32, values, item)")
  else ("lists_indexOf", findTemplate parameters "std.mem.indexOfScalar(f32, values, item)")

def findItem (config : Config) (node : Node) : Script Emission := do
  let (key, template) ← itemFinder <$> choose node "END" (isLast? (← option node "END"))
  let item ← .valueOr "FIND" .none "0"
  let items ← itemsOr "VALUE"
  requireStd
  let helper ← .askHelper key template
  return foundPosition config s!"{helper}({items}, {item})"

/-! ### One character of a text -/

def letterFromEndTemplate : String :=
  routine "(text: []const u8, x: usize) []const u8"
    ["return text[text.len - x ..][0..1];"]

def randomLetterTemplate : String :=
  routine "(text: []const u8) []const u8"
    ["const x = std.crypto.random.uintLessThan(usize, text.len);",
      "return text[x..][0..1];"]

def letterRank : Option Position → Rank
  | some .first => .unaryPostfix
  | some .fromStart => .unaryPostfix
  | _ => .none

def letterCode (config : Config) (node : Node) (text : String) : Option Position → Script String
  | some .first => .done s!"{text}[0..1]"
  | some .fromStart => do
    let index ← atStart config
    return s!"{text}[{index}..][0..1]"
  | some .last => do
    let helper ← .askHelper "text_get_from_end" letterFromEndTemplate
    return s!"{helper}({text}, 1)"
  | some .fromEnd => do
    let back ← atEnd config .none
    let helper ← .askHelper "text_get_from_end" letterFromEndTemplate
    return s!"{helper}({text}, {back})"
  | some .random => do
    requireStd
    let helper ← .askHelper "text_random_letter" randomLetterTemplate
    return s!"{helper}({text})"
  | none => unknownOption node "WHERE"

def letterAt (config : Config) (node : Node) : Script Emission := do
  let position := positionOf node
  let text ← .valueOr "VALUE" (letterRank position) emptyText
  return .value (← letterCode config node text position) .unaryPostfix

/-! ### One item of a list -/

inductive Access
  | get
  | getRemove
  | remove
  deriving DecidableEq, Repr

def access? : String → Option Access
  | "GET" => some .get
  | "GET_REMOVE" => some .getRemove
  | "REMOVE" => some .remove
  | _ => none

def itemFromEndTemplate : String :=
  routine "(values: []const f32, x: usize) f32"
    ["return values[values.len - x];"]

def removeFromEndTemplate : String :=
  routine "(list: *std.ArrayList(f32), x: usize) f32"
    ["return list.orderedRemove(list.items.len - x);"]

def anyItemTemplate : String :=
  routine "(values: []const f32) f32"
    ["return values[std.crypto.random.uintLessThan(usize, values.len)];"]

def removeAnyTemplate : String :=
  routine "(list: *std.ArrayList(f32)) f32"
    ["return list.orderedRemove(std.crypto.random.uintLessThan(usize, list.items.len));"]

/-- Bind a random index of a list to a fresh name: the name and the statement. -/
def randomIndex (list : String) : Script (String × String) := do
  requireStd
  let index ← .freshName "tmp_x"
  return (index, s!"const {index} = std.crypto.random.uintLessThan(usize, {list}.items.len);\n")

/-- An expression that removes an item: a value, or a statement that drops it. -/
def removal (access : Access) (code : String) : Emission :=
  if access = .remove then .statement s!"_ = {code};\n" else .value code .unaryPostfix

/-- Read or remove the item at an index. -/
def accessAt (access : Access) (list index : String) : Emission :=
  if access = .get then .value s!"{list}.items[{index}]" .unaryPostfix
  else removal access s!"{list}.orderedRemove({index})"

/-- Whether the code of the list is needed twice. -/
def usesTwice (access : Access) (position : Position) : Bool :=
  position = .fromEnd || (position = .random && access = .remove)

/-- The forms for a computed list that is needed twice. -/
def accessComputed (config : Config) (access : Access) (position : Position) (list : String) :
    Script Emission := do
  if position = .random then
    let cached ← cache list "tmp_list"
    let (index, setup) ← randomIndex cached.expr
    return .statement s!"{cached.setup}{setup}_ = {cached.expr}.orderedRemove({index});\n"
  else match access with
    | .remove =>
      let back ← atEnd config .additive
      let cached ← cache list "tmp_list"
      let removed := s!"{cached.expr}.orderedRemove({cached.expr}.items.len - {back})"
      return .statement s!"{cached.setup}_ = {removed};\n"
    | .get =>
      let back ← atEnd config .none
      let helper ← .askHelper "lists_get_from_end" itemFromEndTemplate
      return .value s!"{helper}({list}.items, {back})" .unaryPostfix
    | .getRemove =>
      let back ← atEnd config .none
      let helper ← .askHelper "lists_remove_from_end" removeFromEndTemplate
      return .value s!"{helper}(&{list}, {back})" .unaryPostfix

/-- The forms for a list whose code can be repeated, or is not. -/
def accessDirect (config : Config) (access : Access) (position : Position) (list : String) :
    Script Emission :=
  match position with
  | .first => .done (accessAt access list "0")
  | .last =>
    .done (if access = .get then .value s!"{list}.getLast()" .unaryPostfix
      else removal access s!"{list}.pop()")
  | .fromStart => do return accessAt access list (← atStart config)
  | .fromEnd => do
    let back ← atEnd config .additive
    return accessAt access list s!"{list}.items.len - {back}"
  | .random =>
    match access with
    | .remove => do
      let (index, setup) ← randomIndex list
      return .statement s!"{setup}_ = {list}.orderedRemove({index});\n"
    | .get => do
      requireStd
      let helper ← .askHelper "lists_get_random_item" anyItemTemplate
      return .value s!"{helper}({list}.items)" .unaryPostfix
    | .getRemove => do
      requireStd
      let helper ← .askHelper "lists_remove_random_item" removeAnyTemplate
      return .value s!"{helper}(&{list})" .unaryPostfix

def getItem (config : Config) (node : Node) : Script Emission := do
  let access ← choose node "MODE" (access? (optionOr node "MODE" "GET"))
  let position ← choose node "WHERE" (positionOf node)
  let list ← listOr "VALUE"
  if usesTwice access position && !Text.isWord list then
    accessComputed config access position list
  else accessDirect config access position list

def inserts? : String → Option Bool
  | "SET" => some false
  | "INSERT" => some true
  | _ => none

/-- Write a value at an index, in place of the item there or before it. -/
def writeAt (insert : Bool) (list index value : String) : String :=
  if insert then s!"try {list}.insert({index}, {value});\n"
  else s!"{list}.items[{index}] = {value};\n"

/-- The list to write to, bound to a name if its code is needed twice. -/
def writable (insert : Bool) (position : Position) (list : String) : Script Cached :=
  match position with
  | .last => if insert then .done ⟨list, ""⟩ else cache list "tmp_list"
  | .fromEnd => cache list "tmp_list"
  | .random => cache list "tmp_list"
  | _ => .done ⟨list, ""⟩

def writeItem (config : Config) (insert : Bool) (position : Position) (list value : String) :
    Script String :=
  match position with
  | .first => .done (writeAt insert list "0" value)
  | .last =>
    .done (if insert then s!"try {list}.append({value});\n"
      else writeAt false list s!"{list}.items.len - 1" value)
  | .fromStart => do return writeAt insert list (← atStart config) value
  | .fromEnd => do
    let back ← atEnd config .additive
    return writeAt insert list s!"{list}.items.len - {back}" value
  | .random => do
    let (index, setup) ← randomIndex list
    return setup ++ writeAt insert list index value

def setItem (config : Config) (node : Node) : Script Emission := do
  let insert ← choose node "MODE" (inserts? (optionOr node "MODE" "SET"))
  let position ← choose node "WHERE" (positionOf node)
  let list ← listOr "LIST"
  let value ← .valueOr "TO" .assignment "0"
  let target ← writable insert position list
  let code ← writeItem config insert position target.expr value
  return .statement (target.setup ++ code)

def positions : List (String × Emitter) :=
  [("text_indexOf", ⟨findText, false⟩), ("lists_indexOf", ⟨findItem, false⟩),
    ("text_charAt", ⟨letterAt, false⟩), ("lists_getIndex", ⟨getItem, false⟩),
    ("lists_setIndex", ⟨setItem, false⟩)]

end BlockSynth.Zig
