import EffectGraph.Attribute
import EffectGraph.Calendar
import EffectGraph.Command
import EffectGraph.Config.Issue
import EffectGraph.Config.Load
import EffectGraph.Config.Merge
import EffectGraph.Config.Schema
import EffectGraph.Data.Basic
import EffectGraph.Data.Equal
import EffectGraph.Data.Json
import EffectGraph.Data.Scatter
import EffectGraph.Data.Text
import EffectGraph.Definition
import EffectGraph.Effect
import EffectGraph.Error
import EffectGraph.Files
import EffectGraph.Graph.Basic
import EffectGraph.Graph.Builder
import EffectGraph.Graph.Evaluator
import EffectGraph.Graph.Node
import EffectGraph.Graph.Order
import EffectGraph.Graph.Registry
import EffectGraph.Graph.Slot
import EffectGraph.Handle
import EffectGraph.Keyed
import EffectGraph.Literal
import EffectGraph.Log
import EffectGraph.Main
import EffectGraph.Modifier
import EffectGraph.Module
import EffectGraph.Number.Binary64
import EffectGraph.Number.Decimal
import EffectGraph.Number.Integer
import EffectGraph.Number.Reading
import EffectGraph.Operator
import EffectGraph.Proofs.Config.Joining
import EffectGraph.Proofs.Config.Merging
import EffectGraph.Proofs.Config.Repetition
import EffectGraph.Proofs.Config.Settled
import EffectGraph.Proofs.Config.Strays
import EffectGraph.Proofs.Data.Equality
import EffectGraph.Proofs.Data.Showing
import EffectGraph.Proofs.Effect.Acceptance
import EffectGraph.Proofs.Effect.Alike
import EffectGraph.Proofs.Effect.Attributes
import EffectGraph.Proofs.Effect.Captures
import EffectGraph.Proofs.Effect.Duplication
import EffectGraph.Proofs.Effect.Faults
import EffectGraph.Proofs.Effect.Lines
import EffectGraph.Proofs.Effect.Locals
import EffectGraph.Proofs.Effect.Modifiers
import EffectGraph.Proofs.Effect.Offsets
import EffectGraph.Proofs.Effect.Reading
import EffectGraph.Proofs.Effect.Refusals
import EffectGraph.Proofs.Effect.Reordering
import EffectGraph.Proofs.Effect.Stages
import EffectGraph.Proofs.Effect.Statements
import EffectGraph.Proofs.Effect.Strays
import EffectGraph.Proofs.Failure
import EffectGraph.Proofs.Graph.Blocks
import EffectGraph.Proofs.Graph.Building
import EffectGraph.Proofs.Graph.Calls
import EffectGraph.Proofs.Graph.Cycles
import EffectGraph.Proofs.Graph.Dependencies
import EffectGraph.Proofs.Graph.Evaluation
import EffectGraph.Proofs.Graph.Layout
import EffectGraph.Proofs.Graph.Linking
import EffectGraph.Proofs.Graph.Links
import EffectGraph.Proofs.Graph.Ordering
import EffectGraph.Proofs.Graph.References
import EffectGraph.Proofs.Graph.Reordering
import EffectGraph.Proofs.Graph.Scheduling
import EffectGraph.Proofs.Graph.Sorting
import EffectGraph.Proofs.Graph.Targets
import EffectGraph.Proofs.Graph.Wiring
import EffectGraph.Proofs.Literal.Constructors
import EffectGraph.Proofs.Literal.Declared
import EffectGraph.Proofs.Literal.RoundTrip
import EffectGraph.Proofs.Literal.Typed
import EffectGraph.Proofs.Module.Ambiguity
import EffectGraph.Proofs.Module.Growth
import EffectGraph.Proofs.Module.Runs
import EffectGraph.Proofs.Module.Trees
import EffectGraph.Proofs.Module.Types
import EffectGraph.Proofs.Module.Uses
import EffectGraph.Proofs.Nesting
import EffectGraph.Proofs.Number.Integers
import EffectGraph.Proofs.Rendering
import EffectGraph.Proofs.Sharing
import EffectGraph.Proofs.Spelling
import EffectGraph.Proofs.Work
import EffectGraph.Proofs.Writer.Histories
import EffectGraph.Proofs.Writer.Modules
import EffectGraph.Proofs.Writer.Names
import EffectGraph.Proofs.Writer.Recursion
import EffectGraph.Proofs.Writer.Session
import EffectGraph.Proofs.Writer.Sparing
import EffectGraph.Proofs.Writer.Texts
import EffectGraph.Sharing
import EffectGraph.Stack
import EffectGraph.Table
import EffectGraph.Text.Blank
import EffectGraph.Text.CaseRun
import EffectGraph.Text.Cased
import EffectGraph.Text.Digit
import EffectGraph.Text.Glyph
import EffectGraph.Text.Lower
import EffectGraph.Text.Printable
import EffectGraph.Text.Quoted
import EffectGraph.Text.Upper
import EffectGraph.Text.Utf8
import EffectGraph.ValueType
import EffectGraph.Writer
import EffectGraph.Yaml.Base64
import EffectGraph.Yaml.Cursor
import EffectGraph.Yaml.Document
import EffectGraph.Yaml.Merge
import EffectGraph.Yaml.Node
import EffectGraph.Yaml.Scalar
import EffectGraph.Yaml.Stream
import EffectGraph.Yaml.Tag
import EffectGraph.Yaml.Text
import EffectGraph.Yaml.Timestamp
import EffectGraph.Yaml.Token
import EffectGraph.Yaml.Value
