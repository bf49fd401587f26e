import FuzzyRating.Arith
import FuzzyRating.Assessment.Context
import FuzzyRating.Assessment.Error
import FuzzyRating.Assessment.Evaluate
import FuzzyRating.Assessment.Report
import FuzzyRating.Cache
import FuzzyRating.Catalog.Basic
import FuzzyRating.Catalog.Build
import FuzzyRating.Catalog.Cycle
import FuzzyRating.Catalog.Json
import FuzzyRating.Catalog.Required
import FuzzyRating.Catalog.Source
import FuzzyRating.Combination
import FuzzyRating.Command.Arguments
import FuzzyRating.Command.Invocation
import FuzzyRating.Command.Listing
import FuzzyRating.Command.Output
import FuzzyRating.Command.Run
import FuzzyRating.Config
import FuzzyRating.ConfigurationError
import FuzzyRating.Crisp.Expr
import FuzzyRating.Crisp.Parser
import FuzzyRating.Curve.Interpolation
import FuzzyRating.Curve.Point
import FuzzyRating.Decimal.Basic
import FuzzyRating.Decimal.Layout
import FuzzyRating.Decimal.Shortest
import FuzzyRating.Double
import FuzzyRating.Engine
import FuzzyRating.Evaluation.Definition
import FuzzyRating.Evaluation.Membership
import FuzzyRating.File
import FuzzyRating.InterpretationId
import FuzzyRating.Journal
import FuzzyRating.Json.Fault
import FuzzyRating.Json.Reader
import FuzzyRating.Json.Record
import FuzzyRating.Json.Scan
import FuzzyRating.Json.Value
import FuzzyRating.Keyword
import FuzzyRating.Main
import FuzzyRating.Property
import FuzzyRating.PropertyData
import FuzzyRating.PropertyValue
import FuzzyRating.RatingTable
import FuzzyRating.Rule.Error
import FuzzyRating.Rule.Node
import FuzzyRating.Rule.Outline
import FuzzyRating.Rule.Placement
import FuzzyRating.Rule.Resolve
import FuzzyRating.Table
import FuzzyRating.Text.Blank
import FuzzyRating.Text.Columns
import FuzzyRating.Text.Distance
import FuzzyRating.Text.Emoji
import FuzzyRating.Text.Letter
import FuzzyRating.Text.Ligature
import FuzzyRating.Text.Lower
import FuzzyRating.Text.Position
import FuzzyRating.Text.Quoted
import FuzzyRating.Text.Range
import FuzzyRating.Text.Width
import FuzzyRating.Tree
import FuzzyRating.Proofs.Keyed
import FuzzyRating.Proofs.Assessment.Extension
import FuzzyRating.Proofs.Assessment.Subject
import FuzzyRating.Proofs.Journal
import FuzzyRating.Proofs.NullValues
import FuzzyRating.Proofs.Catalog.Cycle
import FuzzyRating.Proofs.Rule.Resolve
import FuzzyRating.Proofs.Catalog.Build
import FuzzyRating.Proofs.Catalog.Circle
import FuzzyRating.Proofs.Arith
import FuzzyRating.Proofs.Curve
import FuzzyRating.Proofs.Assessment.Visit
import FuzzyRating.Proofs.Assessment.Failure
import FuzzyRating.Proofs.Rule.Key
import FuzzyRating.Proofs.Assessment.Nesting
import FuzzyRating.Proofs.Assessment.SubRule
import FuzzyRating.Proofs.Decimal.Bits
import FuzzyRating.Proofs.Json.Text
import FuzzyRating.Proofs.Cache.Key
import FuzzyRating.Proofs.Cache.Entries
import FuzzyRating.Proofs.Engine.Run
import FuzzyRating.Proofs.Engine.Transparency
import FuzzyRating.Proofs.Cache.History
import FuzzyRating.Proofs.Cache.Residence
import FuzzyRating.Proofs.Cache.Counters
import FuzzyRating.Proofs.Cache.Pruning
import FuzzyRating.Proofs.Rule.Indentation
import FuzzyRating.Proofs.Rule.Walk
import FuzzyRating.Proofs.Rule.Placement
import FuzzyRating.Proofs.Rule.Described
import FuzzyRating.Proofs.Rule.WellFormed
import FuzzyRating.Proofs.Rule.Forms
import FuzzyRating.Proofs.Decimal.Numeral
import FuzzyRating.Proofs.Crisp.Canonical
import FuzzyRating.Proofs.Crisp.Printer
import FuzzyRating.Proofs.Crisp.RoundTrip
import FuzzyRating.Proofs.Assessment.FullTree
import FuzzyRating.Proofs.Assessment.Trace
import FuzzyRating.Proofs.Assessment.Veto
import FuzzyRating.Proofs.Assessment.Progress
import FuzzyRating.Proofs.Exact.Number
import FuzzyRating.Proofs.Exact.Combination
import FuzzyRating.Proofs.Exact.Curve
import FuzzyRating.Proofs.Exact.Rating
import FuzzyRating.Proofs.Catalog.Required
import FuzzyRating.Proofs.Assessment.Inputs
import FuzzyRating.Proofs.Text.Suggestions
import FuzzyRating.Proofs.Engine.Created
import FuzzyRating.Proofs.Catalog.RuleOrder
import FuzzyRating.Proofs.Command.Batch
import FuzzyRating.Proofs.Crisp.Token
import FuzzyRating.Proofs.Crisp.TokenReader
import FuzzyRating.Proofs.Crisp.Grammar
import FuzzyRating.Proofs.Crisp.Soundness
import FuzzyRating.Proofs.Crisp.Completeness
import FuzzyRating.Proofs.Crisp.Language
import FuzzyRating.Proofs.Decimal.Whole
import FuzzyRating.Proofs.Json.Numeral
import FuzzyRating.Proofs.Json.Spacing
import FuzzyRating.Proofs.Json.Written
import FuzzyRating.Proofs.Json.Members
import FuzzyRating.Proofs.Json.Yield
import FuzzyRating.Proofs.Json.Reread
import FuzzyRating.Proofs.Catalog.Json
import FuzzyRating.Proofs.Config
import FuzzyRating.Proofs.Reread
import FuzzyRating.Proofs.Catalog.Lookup
import FuzzyRating.Proofs.Assessment.Leaves
import FuzzyRating.Proofs.Catalog.ReadingOrder
import FuzzyRating.Proofs.Assessment.Policy
import FuzzyRating.Proofs.Exact.MissingData
import FuzzyRating.Proofs.Curve.Cubic
import FuzzyRating.Proofs.Curve.Doubles
import FuzzyRating.Proofs.Engine.Ids
import FuzzyRating.Proofs.Exact.Inversion
import FuzzyRating.Proofs.Exact.Place
import FuzzyRating.Proofs.Exact.BrokenLine
import FuzzyRating.Proofs.Exact.Ramp
import FuzzyRating.Proofs.Exact.Spline
import FuzzyRating.Proofs.Exact.Operators
import FuzzyRating.Proofs.Exact.Monotony
import FuzzyRating.Proofs.Text.EditDistance
import FuzzyRating.Proofs.RatingTable
import FuzzyRating.Proofs.Engine.Classes
import FuzzyRating.Proofs.Assessment.Steps
import FuzzyRating.Proofs.Text.Position
import FuzzyRating.Proofs.Crisp.Trailing
import FuzzyRating.Proofs.Curve.Bracketing
