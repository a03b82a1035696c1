import CodeIndex.Chunk.Basic
import CodeIndex.Chunk.Header
import CodeIndex.Chunk.Kind
import CodeIndex.Chunk.Limits
import CodeIndex.Chunk.Outline
import CodeIndex.Chunk.Parse
import CodeIndex.Chunk.Windows
import CodeIndex.Command.Arguments
import CodeIndex.Command.Run
import CodeIndex.Command.Script
import CodeIndex.Config.Basic
import CodeIndex.Config.Text
import CodeIndex.Context.Budget
import CodeIndex.Context.Build
import CodeIndex.Context.Items
import CodeIndex.Context.Section
import CodeIndex.Context.Window
import CodeIndex.Debounce.Change
import CodeIndex.Debounce.Coordinator
import CodeIndex.Debounce.Timeline
import CodeIndex.Decimal.Binary
import CodeIndex.Decimal.Fixed
import CodeIndex.Decimal.Order
import CodeIndex.Decimal.Shortest
import CodeIndex.Digest.Blake3
import CodeIndex.Disk.Basic
import CodeIndex.Disk.Ignore
import CodeIndex.Disk.Path
import CodeIndex.Engine.Basic
import CodeIndex.Engine.Query
import CodeIndex.Engine.Report
import CodeIndex.Engine.Update
import CodeIndex.FullText.Folding
import CodeIndex.FullText.Index
import CodeIndex.FullText.Stem
import CodeIndex.FullText.Terms
import CodeIndex.FullText.Words
import CodeIndex.Glob.Filter
import CodeIndex.Glob.Match
import CodeIndex.Glob.Pattern
import CodeIndex.Json.Basic
import CodeIndex.Json.Numeral
import CodeIndex.Json.Printer
import CodeIndex.Json.Reader
import CodeIndex.Json.Token
import CodeIndex.Main
import CodeIndex.Project.Basic
import CodeIndex.Project.Scan
import CodeIndex.Project.Walk
import CodeIndex.Ranking.ModuleKey
import CodeIndex.Ranking.Rank
import CodeIndex.Ranking.Signal
import CodeIndex.Ranking.Words
import CodeIndex.Relation.CallName
import CodeIndex.Relation.Import
import CodeIndex.Relation.UseTree
import CodeIndex.Store.Basic
import CodeIndex.Store.File
import CodeIndex.Store.Read
import CodeIndex.Store.Relations
import CodeIndex.Store.Schema
import CodeIndex.Store.Search
import CodeIndex.Store.Table
import CodeIndex.Store.Trigger
import CodeIndex.Store.Write
import CodeIndex.Syntax.Capture
import CodeIndex.Syntax.Given
import CodeIndex.Syntax.Language
import CodeIndex.Syntax.Tree
import CodeIndex.Text.Alphabetic
import CodeIndex.Text.Blank
import CodeIndex.Text.Lines
import CodeIndex.Text.LowerCase
import CodeIndex.Text.Numeric
import CodeIndex.Text.Ranges
import CodeIndex.Text.Search
import CodeIndex.Text.Utf8
import CodeIndex.Time.Instant
import CodeIndex.Tool.Call
import CodeIndex.Tool.Server
import CodeIndex.Proofs.Context.Build
import CodeIndex.Proofs.Context.Fit
import CodeIndex.Proofs.Disk.Walk
import CodeIndex.Proofs.Engine.Incremental
import CodeIndex.Proofs.Project.Views
import CodeIndex.Proofs.Store.History
import CodeIndex.Proofs.Store.Order
import CodeIndex.Proofs.Store.Reading
import CodeIndex.Proofs.Store.Soundness
import CodeIndex.Proofs.Store.Table
import CodeIndex.Proofs.Store.Trigger
import CodeIndex.Proofs.Store.View
import CodeIndex.Proofs.Store.Written
import CodeIndex.Proofs.Syntax.Rows
import CodeIndex.Proofs.Chunk.Definitions
import CodeIndex.Proofs.Chunk.Windows
import CodeIndex.Proofs.Chunk.Between
import CodeIndex.Proofs.Chunk.Coverage
import CodeIndex.Proofs.Chunk.Fidelity
import CodeIndex.Proofs.Project.Scanning
import CodeIndex.Proofs.Debounce.Passes
import CodeIndex.Proofs.Debounce.Clock
import CodeIndex.Proofs.Disk.Names
import CodeIndex.Proofs.FullText.Phrases
import CodeIndex.Proofs.Glob.Language
import CodeIndex.Proofs.Glob.Sample
import CodeIndex.Proofs.Project.Pruning
import CodeIndex.Proofs.Project.Reaching
import CodeIndex.Proofs.Project.Saving
import CodeIndex.Proofs.Ranking.Best
import CodeIndex.Proofs.Store.Finding
import CodeIndex.Proofs.Store.Records
import CodeIndex.Proofs.Text.Bytes
import CodeIndex.Proofs.Glob.Suffix
import CodeIndex.Proofs.Config.Aliases
import CodeIndex.Proofs.Config.RoundTrip
import CodeIndex.Proofs.Json.Tokens
import CodeIndex.Proofs.Json.RoundTrip
import CodeIndex.Proofs.Context.Shown
import CodeIndex.Proofs.Debounce.Burst
import CodeIndex.Proofs.Debounce.Quiet
import CodeIndex.Proofs.Project.Batch
import CodeIndex.Proofs.Store.Lookups
import CodeIndex.Proofs.Store.Parsed
import CodeIndex.Proofs.Chunk.Captures
import CodeIndex.Proofs.Chunk.Outline
import CodeIndex.Proofs.Chunk.Stack
import CodeIndex.Proofs.Context.Apart
import CodeIndex.Proofs.Context.Visible
import CodeIndex.Proofs.Syntax.Places
import CodeIndex.Proofs.Text.Trimming
import CodeIndex.Proofs.Chunk.WindowCover
import CodeIndex.Proofs.Chunk.Truncation
import CodeIndex.Proofs.Context.Cutting
import CodeIndex.Proofs.Text.Search
import CodeIndex.Proofs.Relation.Callee
import CodeIndex.Proofs.Relation.CallName
import CodeIndex.Proofs.Relation.Chains
import CodeIndex.Proofs.Relation.Pattern
import CodeIndex.Proofs.Relation.UseTree
import CodeIndex.Proofs.Chunk.Cap
import CodeIndex.Proofs.Syntax.Ranges
import CodeIndex.Proofs.Chunk.Nesting
import CodeIndex.Proofs.Ranking.Parts
import CodeIndex.Proofs.Ranking.Keys
import CodeIndex.Proofs.Ranking.Imports
import CodeIndex.Proofs.Text.Pieces
import CodeIndex.Proofs.FullText.Expression
import CodeIndex.Proofs.Context.Window
