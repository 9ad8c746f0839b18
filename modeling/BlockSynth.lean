import BlockSynth.Catalog
import BlockSynth.Command.Arguments
import BlockSynth.Command.Files
import BlockSynth.Command.Run
import BlockSynth.Config
import BlockSynth.Described
import BlockSynth.Fault
import BlockSynth.Graph.Document
import BlockSynth.Graph.Node
import BlockSynth.Graph.Workspace
import BlockSynth.Index
import BlockSynth.Json.Reader
import BlockSynth.Json.Shape
import BlockSynth.Json.Value
import BlockSynth.Keyed
import BlockSynth.Main
import BlockSynth.Name.Identifier
import BlockSynth.Name.Registry
import BlockSynth.Number.Binary64
import BlockSynth.Number.Decimal
import BlockSynth.Number.Shortest
import BlockSynth.Program.Definitions
import BlockSynth.Program.Ledger
import BlockSynth.Proofs.Abreast
import BlockSynth.Proofs.Catalog
import BlockSynth.Proofs.Copy
import BlockSynth.Proofs.Culprit
import BlockSynth.Proofs.Depth
import BlockSynth.Proofs.Dispatch
import BlockSynth.Proofs.Drawing
import BlockSynth.Proofs.Graph.Comments
import BlockSynth.Proofs.Graph.Document
import BlockSynth.Proofs.Graph.Node
import BlockSynth.Proofs.Graph.Settle
import BlockSynth.Proofs.Graph.Silenced
import BlockSynth.Proofs.Json.Order
import BlockSynth.Proofs.Json.Yield
import BlockSynth.Proofs.Name.Identifier
import BlockSynth.Proofs.Name.Registry
import BlockSynth.Proofs.Name.Search
import BlockSynth.Proofs.Nesting
import BlockSynth.Proofs.Number.Literal
import BlockSynth.Proofs.Number.Numeral
import BlockSynth.Proofs.Number.Order
import BlockSynth.Proofs.Number.Rounding
import BlockSynth.Proofs.Number.Shortest
import BlockSynth.Proofs.Pace
import BlockSynth.Proofs.Placed
import BlockSynth.Proofs.Program.Definitions
import BlockSynth.Proofs.Program.History
import BlockSynth.Proofs.Program.Ledger
import BlockSynth.Proofs.Program.Reindent
import BlockSynth.Proofs.Provision
import BlockSynth.Proofs.Prune
import BlockSynth.Proofs.Rank
import BlockSynth.Proofs.Reach
import BlockSynth.Proofs.Render
import BlockSynth.Proofs.Script
import BlockSynth.Proofs.Text.Align
import BlockSynth.Proofs.Text.Collapse
import BlockSynth.Proofs.Text.Columns
import BlockSynth.Proofs.Text.Filling
import BlockSynth.Proofs.Text.Firm
import BlockSynth.Proofs.Text.Indent
import BlockSynth.Proofs.Text.Lines
import BlockSynth.Proofs.Text.Literal
import BlockSynth.Proofs.Text.Mention
import BlockSynth.Proofs.Text.Remark
import BlockSynth.Proofs.Text.Tidy
import BlockSynth.Proofs.Text.Whole
import BlockSynth.Proofs.Zig.Access
import BlockSynth.Proofs.Zig.Amount
import BlockSynth.Proofs.Zig.Anonymous
import BlockSynth.Proofs.Zig.Binder
import BlockSynth.Proofs.Zig.Bracket
import BlockSynth.Proofs.Zig.Comment
import BlockSynth.Proofs.Zig.Containment
import BlockSynth.Proofs.Zig.Contract
import BlockSynth.Proofs.Zig.Count
import BlockSynth.Proofs.Zig.Counting
import BlockSynth.Proofs.Zig.Culprit
import BlockSynth.Proofs.Zig.Cumulative
import BlockSynth.Proofs.Zig.Declaration
import BlockSynth.Proofs.Zig.Depth
import BlockSynth.Proofs.Zig.Disabled
import BlockSynth.Proofs.Zig.Element
import BlockSynth.Proofs.Zig.Emitted
import BlockSynth.Proofs.Zig.Enclosed
import BlockSynth.Proofs.Zig.Exposure
import BlockSynth.Proofs.Zig.FileScope
import BlockSynth.Proofs.Zig.Flow
import BlockSynth.Proofs.Zig.Formula
import BlockSynth.Proofs.Zig.Grammar
import BlockSynth.Proofs.Zig.Growth
import BlockSynth.Proofs.Zig.Imports
import BlockSynth.Proofs.Zig.Indexing
import BlockSynth.Proofs.Zig.Injected
import BlockSynth.Proofs.Zig.Injection
import BlockSynth.Proofs.Zig.Layout
import BlockSynth.Proofs.Zig.Lexeme
import BlockSynth.Proofs.Zig.Likeness
import BlockSynth.Proofs.Zig.Literal
import BlockSynth.Proofs.Zig.Loaded
import BlockSynth.Proofs.Zig.Locals
import BlockSynth.Proofs.Zig.Loop
import BlockSynth.Proofs.Zig.Mention
import BlockSynth.Proofs.Zig.Message
import BlockSynth.Proofs.Zig.Moderate
import BlockSynth.Proofs.Zig.Once
import BlockSynth.Proofs.Zig.Operand
import BlockSynth.Proofs.Zig.Outline
import BlockSynth.Proofs.Zig.Pace
import BlockSynth.Proofs.Zig.Phrase
import BlockSynth.Proofs.Zig.Piece
import BlockSynth.Proofs.Zig.Precedence
import BlockSynth.Proofs.Zig.Primary
import BlockSynth.Proofs.Zig.Ranges
import BlockSynth.Proofs.Zig.RankTruth
import BlockSynth.Proofs.Zig.Scan
import BlockSynth.Proofs.Zig.Sensor
import BlockSynth.Proofs.Zig.Session
import BlockSynth.Proofs.Zig.Shadowing
import BlockSynth.Proofs.Zig.Sketch
import BlockSynth.Proofs.Zig.Slicer
import BlockSynth.Proofs.Zig.Slicing
import BlockSynth.Proofs.Zig.Sound.Catalog
import BlockSynth.Proofs.Zig.Sound.List
import BlockSynth.Proofs.Zig.Sound.Number
import BlockSynth.Proofs.Zig.Sound.Position
import BlockSynth.Proofs.Zig.Sound.Statement
import BlockSynth.Proofs.Zig.Sound.Text
import BlockSynth.Proofs.Zig.Still
import BlockSynth.Proofs.Zig.Supply
import BlockSynth.Proofs.Zig.Temperate
import BlockSynth.Proofs.Zig.Template
import BlockSynth.Proofs.Zig.Underflow
import BlockSynth.Proofs.Zig.Unsigned
import BlockSynth.Proofs.Zig.Whole
import BlockSynth.Proofs.Zig.Worth
import BlockSynth.Proofs.Zig.Written
import BlockSynth.Rank
import BlockSynth.Rank.Reference
import BlockSynth.Render
import BlockSynth.Script
import BlockSynth.Target
import BlockSynth.Text.Blank
import BlockSynth.Text.Columns
import BlockSynth.Text.Lines
import BlockSynth.Text.Quote
import BlockSynth.Text.Replace
import BlockSynth.Text.Shape
import BlockSynth.Zig.Arithmetic
import BlockSynth.Zig.Base
import BlockSynth.Zig.Binding
import BlockSynth.Zig.Choice
import BlockSynth.Zig.Device
import BlockSynth.Zig.Iteration
import BlockSynth.Zig.Palette
import BlockSynth.Zig.Position
import BlockSynth.Zig.Routine
import BlockSynth.Zig.Sequence
import BlockSynth.Zig.Slice
import BlockSynth.Zig.Statistics
import BlockSynth.Zig.Target
import BlockSynth.Zig.Wording
import BlockSynth.Zig.Words
