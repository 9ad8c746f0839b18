import BlockSynth.Rank
import BlockSynth.Text.Lines
import BlockSynth.Zig.Words

/-! # The reference page

A page in Markdown that shows the scale of ranks, the pairs that chain, and the reserved words.
-/
namespace BlockSynth.Reference

def code (text : String) : String :=
  s!"`{text}`"

def codes (texts : List String) : String :=
  Text.join ", " (texts.map code)

def rankRow (rank : Rank) : String :=
  let examples := codes rank.examples
  s!"| {rank.level} | {rank.name} | {examples} |\n"

def ranks : String :=
  "## Ranks\n\nLower levels bind tighter.\n\n| Level | Name | Examples |\n|---|---|---|\n" ++
    String.join (Rank.all.map rankRow) ++ "\n"

def chainRow : Rank × Rank → String
  | (outer, inner) => s!"| {outer.name} | {inner.name} |\n"

def chains : String :=
  "## Same-level pairs that never wrap\n\n| Outer | Inner |\n|---|---|\n" ++
    String.join (Rank.chains.map chainRow) ++ "\n"

def words (title : String) (entries : List String) : String :=
  let listed := codes entries
  s!"### {title}\n\n{listed}\n"

def reserved : String :=
  "## Reserved identifiers (Zig)\n\n" ++
    Text.join "\n" [words "Keywords" Zig.keywords, words "Primitives" Zig.primitives,
      words "Runtime names" Zig.runtimeNames]

def page : String :=
  "# weft precedence reference\n\n" ++
    "> Generated file. Regenerate with `cargo run -p weft_core --bin generate_rank_reference`.\n\n" ++
    ranks ++ chains ++ reserved

end BlockSynth.Reference
