import SchemaTypes.Alias.Basic
import SchemaTypes.Alias.Registry
import SchemaTypes.Change
import SchemaTypes.CommandLine
import SchemaTypes.Console
import SchemaTypes.Declaration
import SchemaTypes.Emission
import SchemaTypes.Json.Basic
import SchemaTypes.Json.Parser
import SchemaTypes.Json.Printer
import SchemaTypes.Main
import SchemaTypes.Options.Error
import SchemaTypes.Options.Key
import SchemaTypes.Options.Settings
import SchemaTypes.Render.Enum
import SchemaTypes.Render.TypeText
import SchemaTypes.Render.Types
import SchemaTypes.Sample
import SchemaTypes.Schema.Basic
import SchemaTypes.Schema.Catalog
import SchemaTypes.Schema.Draft
import SchemaTypes.Schema.Edit
import SchemaTypes.Schema.Notation
import SchemaTypes.Text.Basic
import SchemaTypes.TypeExpr.Recognizer
import SchemaTypes.TypeExpr.Goal
import SchemaTypes.TypeExpr.Lexer
import SchemaTypes.TypeExpr.Token
import SchemaTypes.Proofs.TypeExpr.Grammar
import SchemaTypes.Proofs.TypeExpr.Lookahead
import SchemaTypes.Proofs.TypeExpr.Soundness
import SchemaTypes.Proofs.TypeExpr.Completeness
import SchemaTypes.Proofs.TypeExpr.Acceptance
import SchemaTypes.Proofs.Text.Bytes
import SchemaTypes.Proofs.TypeExpr.Lexing
import SchemaTypes.Proofs.TypeExpr.Spelling
import SchemaTypes.Proofs.Alias.Graph
import SchemaTypes.Proofs.Alias.Settling
import SchemaTypes.Proofs.Alias.Classification
import SchemaTypes.Proofs.Alias.Explanation
import SchemaTypes.Proofs.Emission.Closure
import SchemaTypes.Proofs.TypeExpr.Adjacency
import SchemaTypes.Proofs.TypeExpr.Reference
import SchemaTypes.Proofs.Alias.Scanning
import SchemaTypes.Proofs.Emission.References
import SchemaTypes.Proofs.Emission.Sequence
import SchemaTypes.Proofs.Schema.Order
import SchemaTypes.Proofs.Schema.Notation
import SchemaTypes.Proofs.Render.Leaf
import SchemaTypes.Proofs.Render.TypeText
import SchemaTypes.Proofs.Emission.InputOrder
import SchemaTypes.Proofs.Emission.Kept
import SchemaTypes.Proofs.Emission.Inventory
import SchemaTypes.Proofs.Emission.Extension
import SchemaTypes.Proofs.Emission.Dangling
import SchemaTypes.Proofs.Emission.ScalarTable
import SchemaTypes.Proofs.Emission.Declared
import SchemaTypes.Proofs.Emission.Arms
import SchemaTypes.Proofs.TypeExpr.Brackets
import SchemaTypes.Proofs.TypeExpr.Seams
import SchemaTypes.Proofs.TypeExpr.Layout
import SchemaTypes.Proofs.Alias.Statement
import SchemaTypes.Proofs.Alias.Agreement
import SchemaTypes.Proofs.Emission.Unused
import SchemaTypes.Proofs.Emission.Filter
import SchemaTypes.Proofs.Alias.Mentions
import SchemaTypes.Proofs.Alias.Positions
import SchemaTypes.Proofs.Emission.Descriptions
import SchemaTypes.Proofs.Emission.Marks
import SchemaTypes.Proofs.Render.Enum
import SchemaTypes.Proofs.Alias.Quotation
import SchemaTypes.Proofs.Text.Comment
import SchemaTypes.Proofs.Render.Levels
import SchemaTypes.Proofs.Render.Mentioned
import SchemaTypes.Proofs.Render.Bookkeeping
import SchemaTypes.Proofs.Json.Members
import SchemaTypes.Proofs.Options.Readings
import SchemaTypes.Proofs.Options.Ignored
import SchemaTypes.Proofs.Schema.Editing
import SchemaTypes.Proofs.Schema.Catalog
import SchemaTypes.Proofs.Schema.Fault
import SchemaTypes.Proofs.Text.LeadingComment
import SchemaTypes.Proofs.Emission.Qualifier
import SchemaTypes.Proofs.Steps
import SchemaTypes.Proofs.TypeExpr.Cursor
import SchemaTypes.Proofs.TypeExpr.Coverage
import SchemaTypes.Proofs.TypeExpr.Progress
import SchemaTypes.Proofs.TypeExpr.Fault
