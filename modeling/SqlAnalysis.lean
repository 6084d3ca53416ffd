import SqlAnalysis.Text.Case
import SqlAnalysis.Text.Blank
import SqlAnalysis.Text.Split
import SqlAnalysis.Text.Bytes
import SqlAnalysis.Text.Number
import SqlAnalysis.Source.Span
import SqlAnalysis.Source.Position
import SqlAnalysis.Source.LineIndex
import SqlAnalysis.Diagnostic.Basic
import SqlAnalysis.Diagnostic.Sink
import SqlAnalysis.Binary64.Basic
import SqlAnalysis.Binary64.Shortest
import SqlAnalysis.Binary64.Notation
import SqlAnalysis.Calendar
import SqlAnalysis.Operator
import SqlAnalysis.Literal
import SqlAnalysis.SqlType.Kind
import SqlAnalysis.SqlType.Basic
import SqlAnalysis.SqlType.Result
import SqlAnalysis.SqlType.Storage
import SqlAnalysis.Json.Basic
import SqlAnalysis.Json.Write
import SqlAnalysis.Json.Decode
import SqlAnalysis.Failure
import SqlAnalysis.Signature
import SqlAnalysis.Catalog.Descriptor
import SqlAnalysis.Catalog.Basic
import SqlAnalysis.Syntax.Ident
import SqlAnalysis.Syntax.Query
import SqlAnalysis.Syntax.Statement
import SqlAnalysis.Syntax.Render
import SqlAnalysis.Token.Keyword
import SqlAnalysis.Token.Basic
import SqlAnalysis.Token.Scan
import SqlAnalysis.Token.Lexer
import SqlAnalysis.Completion.Hint
import SqlAnalysis.Grammar.Parser
import SqlAnalysis.Grammar.Expression
import SqlAnalysis.Grammar.Query
import SqlAnalysis.Grammar.Change
import SqlAnalysis.Grammar.Definition
import SqlAnalysis.Grammar.Script
import SqlAnalysis.Suggestion
import SqlAnalysis.Scope.Basic
import SqlAnalysis.Scope.Tree
import SqlAnalysis.Resolution.Resolver
import SqlAnalysis.Resolution.Query
import SqlAnalysis.Resolution.Statement
import SqlAnalysis.Canonical
import SqlAnalysis.Compilation.Options
import SqlAnalysis.Compilation.Hover
import SqlAnalysis.Compilation.Basic
import SqlAnalysis.CommandLine
import SqlAnalysis.Main
import SqlAnalysis.Proofs.Source.Positions
import SqlAnalysis.Proofs.Token.Tiling
import SqlAnalysis.Proofs.Syntax.Nodes
import SqlAnalysis.Proofs.Syntax.Grouping
import SqlAnalysis.Proofs.Grammar.Spelling
import SqlAnalysis.Proofs.Grammar.Lockstep
import SqlAnalysis.Proofs.Grammar.Pieces
import SqlAnalysis.Proofs.Grammar.Operators
import SqlAnalysis.Proofs.Grammar.Queries
import SqlAnalysis.Proofs.Grammar.Statements
import SqlAnalysis.Proofs.Grammar.Isolation
import SqlAnalysis.Proofs.Grammar.Precedence
import SqlAnalysis.Proofs.Diagnostic.Sinks
import SqlAnalysis.Proofs.Resolution.Framing
import SqlAnalysis.Proofs.Resolution.Orderly
import SqlAnalysis.Proofs.Resolution.Batches
import SqlAnalysis.Proofs.Catalog.Growth
import SqlAnalysis.Proofs.Catalog.Coherence
import SqlAnalysis.Proofs.Catalog.Edits
import SqlAnalysis.Proofs.Resolution.Bindings
import SqlAnalysis.Proofs.Resolution.Delivery
import SqlAnalysis.Proofs.Resolution.BoundQueries
import SqlAnalysis.Proofs.Resolution.BoundStatements
import SqlAnalysis.Proofs.Resolution.Evolution
import SqlAnalysis.Proofs.Resolution.QueryEdits
import SqlAnalysis.Proofs.Resolution.StatementEdits
import SqlAnalysis.Proofs.Resolution.StoredValues
import SqlAnalysis.Proofs.Compilation.Errors
import SqlAnalysis.Proofs.Text.Digits
import SqlAnalysis.Proofs.Token.Scans
import SqlAnalysis.Proofs.Token.Lexing
import SqlAnalysis.Proofs.Binary64.Numerals
import SqlAnalysis.Proofs.Binary64.Rounding
import SqlAnalysis.Proofs.Binary64.Shortest
import SqlAnalysis.Proofs.Binary64.RoundTrip
import SqlAnalysis.Proofs.Token.Showable
import SqlAnalysis.Proofs.Syntax.Words
import SqlAnalysis.Proofs.Syntax.Skeleton
import SqlAnalysis.Proofs.Syntax.Construction
import SqlAnalysis.Proofs.Syntax.Texts
import SqlAnalysis.Proofs.Syntax.Rendering
import SqlAnalysis.Proofs.Grammar.Production
import SqlAnalysis.Proofs.Grammar.StatementProduction
import SqlAnalysis.Proofs.Grammar.Acceptance
import SqlAnalysis.Proofs.Grammar.Rereading
import SqlAnalysis.Proofs.Grammar.RereadExpressions
import SqlAnalysis.Proofs.Grammar.RereadQueries
import SqlAnalysis.Proofs.Grammar.RereadStatements
import SqlAnalysis.Proofs.Grammar.RoundTrip
import SqlAnalysis.Proofs.Pointwise
import SqlAnalysis.Proofs.Text.Folding
import SqlAnalysis.Proofs.Token.Respelling
import SqlAnalysis.Proofs.Syntax.Likeness
import SqlAnalysis.Proofs.Syntax.LikeTexts
import SqlAnalysis.Proofs.Catalog.Likeness
import SqlAnalysis.Proofs.Resolution.Overloads
import SqlAnalysis.Proofs.Resolution.Twins
import SqlAnalysis.Proofs.Resolution.TwinChecks
import SqlAnalysis.Proofs.Resolution.TwinQueries
import SqlAnalysis.Proofs.Resolution.TwinStatements
import SqlAnalysis.Proofs.Grammar.Respelling
import SqlAnalysis.Proofs.Grammar.RespelledQueries
import SqlAnalysis.Proofs.Grammar.RespelledStatements
import SqlAnalysis.Proofs.Compilation.Forgetting
import SqlAnalysis.Proofs.Compilation.Respelling
import SqlAnalysis.Proofs.Catalog.Uniqueness
import SqlAnalysis.Proofs.Catalog.Frames
import SqlAnalysis.Proofs.Resolution.Complaints
import SqlAnalysis.Proofs.Resolution.Reports
import SqlAnalysis.Proofs.Resolution.UniqueNames
import SqlAnalysis.Proofs.Token.Outline
import SqlAnalysis.Proofs.Syntax.Outlines
import SqlAnalysis.Proofs.Grammar.Reading
import SqlAnalysis.Proofs.Grammar.Layout
import SqlAnalysis.Proofs.Grammar.LayoutStatements
import SqlAnalysis.Proofs.Grammar.Segments
import SqlAnalysis.Proofs.Resolution.Targets
import SqlAnalysis.Proofs.Syntax.Regions
import SqlAnalysis.Proofs.Source.Ranges
import SqlAnalysis.Proofs.Scope.Lookup
import SqlAnalysis.Proofs.Resolution.Openings
import SqlAnalysis.Proofs.Resolution.StatementScopes
import SqlAnalysis.Proofs.Compilation.Scopes
import SqlAnalysis.Proofs.Diagnostic.Separation
import SqlAnalysis.Proofs.Compilation.Diagnostics
import SqlAnalysis.Proofs.Grammar.Partition
import SqlAnalysis.Proofs.Grammar.Recursion
import SqlAnalysis.Proofs.Grammar.Progress
import SqlAnalysis.Proofs.Syntax.Shifting
import SqlAnalysis.Proofs.Token.Slices
import SqlAnalysis.Proofs.Token.Excerpts
import SqlAnalysis.Proofs.Grammar.Cutting
import SqlAnalysis.Proofs.Grammar.CutQueries
import SqlAnalysis.Proofs.Grammar.CutStatements
import SqlAnalysis.Proofs.Grammar.Verbatim
import SqlAnalysis.Proofs.Syntax.Clearing
import SqlAnalysis.Proofs.Resolution.Annotation
import SqlAnalysis.Proofs.Resolution.Visibility
import SqlAnalysis.Proofs.Resolution.Ambiguity
import SqlAnalysis.Proofs.Token.Edges
import SqlAnalysis.Proofs.Grammar.Blame
import SqlAnalysis.Proofs.Resolution.BlamedStatements
import SqlAnalysis.Proofs.Scope.Shadowing
import SqlAnalysis.Proofs.Token.Quoting
import SqlAnalysis.Proofs.Resolution.QueryStages
import SqlAnalysis.Proofs.Resolution.Silence
import SqlAnalysis.Proofs.Resolution.Steadiness
import SqlAnalysis.Proofs.Resolution.NewTables
import SqlAnalysis.Proofs.Syntax.DefinitionTexts
import SqlAnalysis.Proofs.Grammar.RereadDefinitions
import SqlAnalysis.Proofs.Syntax.Marks
import SqlAnalysis.Proofs.Grammar.Seating
import SqlAnalysis.Proofs.Grammar.SeatedStatements
import SqlAnalysis.Proofs.Compilation.Hover
import SqlAnalysis.Proofs.Token.Brackets
import SqlAnalysis.Proofs.Grammar.Identifiers
import SqlAnalysis.Proofs.Grammar.ImpliedChecks
import SqlAnalysis.Proofs.Syntax.Checks
import SqlAnalysis.Proofs.Syntax.StoredLiterals
import SqlAnalysis.Proofs.Grammar.CleanDefinitions
import SqlAnalysis.Proofs.Grammar.StableTexts
import SqlAnalysis.Proofs.Resolution.SettledTypes
import SqlAnalysis.Proofs.Resolution.SettledChecks
import SqlAnalysis.Proofs.Compilation.ImpliedChecks
import SqlAnalysis.Proofs.SqlType.Parameters
import SqlAnalysis.Proofs.SqlType.RoundTrip
import SqlAnalysis.Proofs.SqlType.Arithmetic
import SqlAnalysis.Proofs.Text.Padding
import SqlAnalysis.Proofs.Calendar.Chronology
import SqlAnalysis.Proofs.Calendar.NormalForms
import SqlAnalysis.Proofs.Resolution.ResultColumns
import SqlAnalysis.Proofs.Resolution.FilledQueries
import SqlAnalysis.Proofs.Resolution.Peers
import SqlAnalysis.Proofs.Resolution.PeerQueries
import SqlAnalysis.Proofs.Resolution.WrappedQueries
import SqlAnalysis.Proofs.Preference
import SqlAnalysis.Proofs.Completion.Search
import SqlAnalysis.Proofs.Suggestion
import SqlAnalysis.Proofs.Catalog.Descriptions
import SqlAnalysis.Proofs.Catalog.Links
import SqlAnalysis.Proofs.Token.Delimiting
import SqlAnalysis.Proofs.Source.Lines
