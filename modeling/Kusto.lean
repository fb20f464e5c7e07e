import Kusto.Builder
import Kusto.CommandLine.Arguments
import Kusto.CommandLine.Run
import Kusto.Compile.Constant
import Kusto.Compile.Parts
import Kusto.Compile.Query
import Kusto.Compile.Warning
import Kusto.Draft.Basic
import Kusto.Draft.Clause
import Kusto.Draft.Node
import Kusto.Draft.Operand
import Kusto.Json.Fields
import Kusto.Json.Lexeme
import Kusto.Json.Printer
import Kusto.Json.Reader
import Kusto.Json.Value
import Kusto.Kql.Expr
import Kusto.Kql.Pipeline
import Kusto.Kql.Quoted
import Kusto.Kql.Recognizer
import Kusto.Kql.Token
import Kusto.Legacy.Shape
import Kusto.Legacy.Upgrade
import Kusto.Main
import Kusto.Number.Binary64
import Kusto.Number.Layout
import Kusto.Number.Numeral
import Kusto.Number.Power
import Kusto.Number.Scaled
import Kusto.Number.Shortest
import Kusto.Proofs.Compile.Closed
import Kusto.Proofs.Compile.Confined
import Kusto.Proofs.Compile.FunctionSource
import Kusto.Proofs.Draft.RoundTrip
import Kusto.Proofs.Kql.Closed
import Kusto.Proofs.Kql.Literal
import Kusto.Proofs.Kql.Scanner
import Kusto.Proofs.Legacy.Load
import Kusto.Proofs.Legacy.Upgrade
import Kusto.Proofs.Stored.RoundTrip
import Kusto.Proofs.Stored.Upgrade
import Kusto.Result.Cell
import Kusto.Result.DataTable
import Kusto.Result.Frame
import Kusto.Result.Shape
import Kusto.Schema.Alias
import Kusto.Schema.Cluster
import Kusto.Schema.Column
import Kusto.Schema.Discovery
import Kusto.Schema.Document
import Kusto.Settings.Basic
import Kusto.Settings.Environment
import Kusto.Stored.Query
import Kusto.Stored.Upgrade
import Kusto.Text.Blank
import Kusto.Text.CodePoints
import Kusto.Text.DecimalDigit
import Kusto.Text.Pieces
import Kusto.Time.Calendar
import Kusto.Time.Instant
import Kusto.Time.Reading
import Kusto.Toml.Lexeme
import Kusto.Toml.Moment
import Kusto.Toml.Reader
import Kusto.Toml.Section
import Kusto.Toml.Value
import Kusto.Vocabulary.Aggregate
import Kusto.Vocabulary.BinWidth
import Kusto.Vocabulary.Connective
import Kusto.Vocabulary.FilterOperator
import Kusto.Vocabulary.ResultFormat
import Kusto.Vocabulary.ValueType
import Kusto.Proofs.Stored.Mode
import Kusto.Proofs.Outcome
import Kusto.Proofs.Compile.Form
import Kusto.Proofs.Compile.Marker
import Kusto.Proofs.Compile.Operand
import Kusto.Proofs.Compile.Reference
import Kusto.Proofs.Compile.Filter
import Kusto.Proofs.Legacy.Clauses
import Kusto.Proofs.Legacy.Content
import Kusto.Proofs.Schema.Discovery
import Kusto.Proofs.Compile.DynamicPath
import Kusto.Proofs.Compile.Extension
import Kusto.Proofs.Builder.SourceColumns
import Kusto.Proofs.Compile.AliasSource
import Kusto.Proofs.Builder.Choices
import Kusto.Proofs.Result.Indexed
import Kusto.Proofs.Result.Delivery
import Kusto.Proofs.Result.NonFinite
import Kusto.Proofs.Result.Nulls
import Kusto.Proofs.Result.RowOrder
import Kusto.Proofs.Result.TimeOrder
import Kusto.Proofs.Stored.Kept
import Kusto.Proofs.Compile.Written
import Kusto.Proofs.Compile.Integer
import Kusto.Proofs.Compile.Span
import Kusto.Proofs.Schema.Document
import Kusto.Proofs.Schema.AliasPlaces
import Kusto.Proofs.Draft.View
import Kusto.Proofs.Kql.Delimited
import Kusto.Proofs.Settings.Expansion
import Kusto.Proofs.Compile.Width
