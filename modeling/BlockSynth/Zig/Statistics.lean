import BlockSynth.Catalog
import BlockSynth.Zig.Sequence

/-! # Statistics of lists

Every aggregate goes through a helper that takes the slice of items. Those that allocate can fail.
-/
namespace BlockSynth.Zig

def sumTemplate : String :=
  routine "(values: []const f32) f32" (
    ["var total: f32 = 0;"] ++
    block "for (values) |v|" ["total += v;"] ++
    ["return total;"])

/-- The statistics of no values are zero. -/
def guardEmpty : List String :=
  block "if (values.len == 0)" ["return 0;"]

def minTemplate : String :=
  routine "(values: []const f32) f32" (guardEmpty ++ ["return std.mem.min(f32, values);"])

def maxTemplate : String :=
  routine "(values: []const f32) f32" (guardEmpty ++ ["return std.mem.max(f32, values);"])

def meanTemplate : String :=
  routine "(values: []const f32) f32" (
    guardEmpty ++
    ["var total: f32 = 0;"] ++
    block "for (values) |v|" ["total += v;"] ++
    ["return total / @as(f32, @floatFromInt(values.len));"])

def medianTemplate : String :=
  routine "(values: []const f32) !f32" (
    guardEmpty ++
    ["const sorted = try allocator.dupe(f32, values);",
      "defer allocator.free(sorted);",
      "std.mem.sort(f32, sorted, \x7b\x7d, std.sort.asc(f32));",
      "const mid = sorted.len / 2;"] ++
    block "if (sorted.len % 2 == 0)" ["return (sorted[mid - 1] + sorted[mid]) / 2;"] ++
    ["return sorted[mid];"])

def modesTemplate : String :=
  routine "(values: []const f32) !std.ArrayList(f32)" (
    ["var modes = std.ArrayList(f32).init(allocator);",
      "var best: usize = 0;"] ++
    block "for (values) |candidate|" (
      ["var count: usize = 0;"] ++
      block "for (values) |v|" (block "if (v == candidate)" ["count += 1;"]) ++
      block "if (count > best)" ["best = count;", "modes.clearRetainingCapacity();"] ++
      block ("if (count == best and " ++
        "std.mem.indexOfScalar(f32, modes.items, candidate) == null)")
        ["try modes.append(candidate);"]) ++
    ["return modes;"])

def deviationTemplate : String :=
  routine "(values: []const f32) f32" (
    guardEmpty ++
    ["const n: f32 = @floatFromInt(values.len);",
      "var mean: f32 = 0;"] ++
    block "for (values) |v|" ["mean += v;"] ++
    ["mean /= n;",
      "var variance: f32 = 0;"] ++
    block "for (values) |v|" ["variance += (v - mean) * (v - mean);"] ++
    ["return @sqrt(variance / n);"])

def randomItemTemplate : String :=
  routine "(values: []const f32) f32"
    ["return values[std.crypto.random.uintLessThan(usize, values.len)];"]

structure Aggregate where
  key : String
  template : String
  fallible : Bool := false

def aggregate? : String → Option Aggregate
  | "SUM" => some ⟨"math_sum", sumTemplate, false⟩
  | "MIN" => some ⟨"math_min", minTemplate, false⟩
  | "MAX" => some ⟨"math_max", maxTemplate, false⟩
  | "AVERAGE" => some ⟨"math_mean", meanTemplate, false⟩
  | "MEDIAN" => some ⟨"math_median", medianTemplate, true⟩
  | "MODE" => some ⟨"math_modes", modesTemplate, true⟩
  | "STD_DEV" => some ⟨"math_standard_deviation", deviationTemplate, false⟩
  | "RANDOM" => some ⟨"math_random_item", randomItemTemplate, false⟩
  | _ => none

def aggregateList (_ : Config) (node : Node) : Script Emission := do
  let aggregate ← choose node "OP" (aggregate? (← option node "OP"))
  if aggregate.fallible then requireAllocator else requireStd
  let helper ← .askHelper aggregate.key aggregate.template
  let items ← itemsOr "LIST"
  return if aggregate.fallible then .value s!"try {helper}({items})" .unaryPrefix
    else .value s!"{helper}({items})" .unaryPostfix

def statistics : List (String × Emitter) :=
  [("math_on_list", ⟨aggregateList, false⟩)]

end BlockSynth.Zig
