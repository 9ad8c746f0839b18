import BlockSynth.Catalog
import BlockSynth.Zig.Base

/-! # Colours

Colours are text of the form `#rrggbb`. All but the picked ones come from a helper that allocates.
-/
namespace BlockSynth.Zig

def black : String := "\"#000000\""

def pickColour (_ : Config) (node : Node) : Script Emission :=
  .done (.value (quote (optionOr node "COLOUR" "#000000")) .atomic)

/-- The call that writes a colour with the given number of digits for every argument. -/
def printColour (digits : List String) (arguments : String) : String :=
  let pattern := String.join (digits.map fun count => "\x7bx:0>" ++ count ++ "\x7d")
  s!"return std.fmt.allocPrint(allocator, \"#{pattern}\", .\x7b {arguments} \x7d);"

def randomColourTemplate : String :=
  routine "() ![]const u8" [printColour ["6"] "std.crypto.random.int(u24)"]

def randomColour (_ : Config) (_ : Node) : Script Emission := do
  requireAllocator
  let helper ← .askHelper "colour_random" randomColourTemplate
  return .value s!"try {helper}()" .unaryPrefix

def mixTemplate : String :=
  let channel := fun (name parameter : String) =>
    s!"const {name}: u8 = @intFromFloat(@round(std.math.clamp({parameter}, 0, 100) * 2.55));"
  routine "(r: f32, g: f32, b: f32) ![]const u8"
    [channel "red" "r", channel "green" "g", channel "blue" "b",
      printColour ["2", "2", "2"] "red, green, blue"]

/-- A colour from the percentages of its channels. -/
def mixColour (_ : Config) (_ : Node) : Script Emission := do
  let red ← .valueOr "RED" .none "0"
  let green ← .valueOr "GREEN" .none "0"
  let blue ← .valueOr "BLUE" .none "0"
  requireAllocator
  let helper ← .askHelper "colour_rgb" mixTemplate
  return .value s!"try {helper}({red}, {green}, {blue})" .unaryPrefix

def blendTemplate : String :=
  let part := fun (name colour : String) =>
    s!"const {name}: f32 = @floatFromInt(try std.fmt.parseInt(u8, " ++
      s!"{colour}[1 + i * 2 .. 3 + i * 2], 16));"
  routine "(c1: []const u8, c2: []const u8, ratio: f32) ![]const u8" (
    ["const weight = std.math.clamp(ratio, 0, 1);",
      "var channels: [3]u8 = undefined;"] ++
    block "for (&channels, 0..) |*channel, i|"
      [part "a" "c1", part "b" "c2",
        "channel.* = @intFromFloat(@round(a * (1 - weight) + b * weight));"] ++
    [printColour ["2", "2", "2"] "channels[0], channels[1], channels[2]"])

def blendColours (_ : Config) (_ : Node) : Script Emission := do
  let first ← .valueOr "COLOUR1" .none black
  let second ← .valueOr "COLOUR2" .none black
  let ratio ← .valueOr "RATIO" .none "0.5"
  requireAllocator
  let helper ← .askHelper "colour_blend" blendTemplate
  return .value s!"try {helper}({first}, {second}, {ratio})" .unaryPrefix

def palette : List (String × Emitter) :=
  [("colour_picker", ⟨pickColour, false⟩), ("colour_random", ⟨randomColour, false⟩),
    ("colour_rgb", ⟨mixColour, false⟩), ("colour_blend", ⟨blendColours, false⟩)]

end BlockSynth.Zig
