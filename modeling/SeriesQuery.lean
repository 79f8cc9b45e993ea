import SeriesQuery.Duration
import SeriesQuery.Error
import SeriesQuery.Expr.Basic
import SeriesQuery.Expr.Layout
import SeriesQuery.Expr.Modifier
import SeriesQuery.Expr.Render
import SeriesQuery.Fold
import SeriesQuery.Function.Basic
import SeriesQuery.Function.Names
import SeriesQuery.Label.Filter
import SeriesQuery.Label.FilterExpr
import SeriesQuery.Label.Selector
import SeriesQuery.Number.Binary64
import SeriesQuery.Number.Decimal
import SeriesQuery.Number.Format
import SeriesQuery.Number.Literal
import SeriesQuery.Number.Shortest
import SeriesQuery.Operator.Basic
import SeriesQuery.Operator.Scalar
import SeriesQuery.Pattern.Atom
import SeriesQuery.Pattern.Basic
import SeriesQuery.Pattern.Braces
import SeriesQuery.Pattern.Bracket
import SeriesQuery.Pattern.Cache
import SeriesQuery.Pattern.Group
import SeriesQuery.Pattern.Limits
import SeriesQuery.Pattern.Property
import SeriesQuery.Pattern.Reading
import SeriesQuery.Pattern.Syntax
import SeriesQuery.Proofs.AddedFilters
import SeriesQuery.Proofs.Agreement
import SeriesQuery.Proofs.Alike
import SeriesQuery.Proofs.BareSeconds
import SeriesQuery.Proofs.BinaryTrees
import SeriesQuery.Proofs.Binding
import SeriesQuery.Proofs.CacheBounds
import SeriesQuery.Proofs.CacheRuns
import SeriesQuery.Proofs.Composition
import SeriesQuery.Proofs.Concatenations
import SeriesQuery.Proofs.CountedDepth
import SeriesQuery.Proofs.CursorWalks
import SeriesQuery.Proofs.Cursors
import SeriesQuery.Proofs.DecimalFloats
import SeriesQuery.Proofs.Depth
import SeriesQuery.Proofs.DurationValues
import SeriesQuery.Proofs.EmbeddedOperands
import SeriesQuery.Proofs.Embedding
import SeriesQuery.Proofs.EscapedNames
import SeriesQuery.Proofs.Escapes
import SeriesQuery.Proofs.Expanded
import SeriesQuery.Proofs.Filters
import SeriesQuery.Proofs.FixedPoint
import SeriesQuery.Proofs.FixedTexts
import SeriesQuery.Proofs.FloatParts
import SeriesQuery.Proofs.Foreign
import SeriesQuery.Proofs.Gaps
import SeriesQuery.Proofs.Idempotence
import SeriesQuery.Proofs.Joins
import SeriesQuery.Proofs.KeptNames
import SeriesQuery.Proofs.LabelMaps
import SeriesQuery.Proofs.Layouts
import SeriesQuery.Proofs.LeftOperands
import SeriesQuery.Proofs.LegibleReaders
import SeriesQuery.Proofs.LegibleTokens
import SeriesQuery.Proofs.LimitedSums
import SeriesQuery.Proofs.LiteralValues
import SeriesQuery.Proofs.LongChains
import SeriesQuery.Proofs.Meaning
import SeriesQuery.Proofs.NormalForms
import SeriesQuery.Proofs.Numerals
import SeriesQuery.Proofs.Outcomes
import SeriesQuery.Proofs.Partition
import SeriesQuery.Proofs.Places
import SeriesQuery.Proofs.PlainTexts
import SeriesQuery.Proofs.Precedence
import SeriesQuery.Proofs.PrintedNumbers
import SeriesQuery.Proofs.PrintedSelectors
import SeriesQuery.Proofs.Pushing
import SeriesQuery.Proofs.Quoting
import SeriesQuery.Proofs.RangeTexts
import SeriesQuery.Proofs.Reaching
import SeriesQuery.Proofs.Reading
import SeriesQuery.Proofs.ReadingOperands
import SeriesQuery.Proofs.ReadingQueries
import SeriesQuery.Proofs.References
import SeriesQuery.Proofs.Renaming
import SeriesQuery.Proofs.RepeatCounts
import SeriesQuery.Proofs.Rescanning
import SeriesQuery.Proofs.Respacing
import SeriesQuery.Proofs.RevisedParts
import SeriesQuery.Proofs.RevisedPlaces
import SeriesQuery.Proofs.RevisedScopes
import SeriesQuery.Proofs.RevisedSelectors
import SeriesQuery.Proofs.RevisedTrees
import SeriesQuery.Proofs.Revisions
import SeriesQuery.Proofs.RightOperands
import SeriesQuery.Proofs.RollupTimes
import SeriesQuery.Proofs.Rounding
import SeriesQuery.Proofs.Seconds
import SeriesQuery.Proofs.SelectorForms
import SeriesQuery.Proofs.SelectorNames
import SeriesQuery.Proofs.SelectorTexts
import SeriesQuery.Proofs.ShortestDigits
import SeriesQuery.Proofs.TemplateFree
import SeriesQuery.Proofs.TokenizedReaders
import SeriesQuery.Proofs.TokenizedTrees
import SeriesQuery.Proofs.Tree
import SeriesQuery.Proofs.UnusedTemplates
import SeriesQuery.Proofs.WellFormed
import SeriesQuery.Proofs.Written
import SeriesQuery.Pushdown.Basic
import SeriesQuery.Pushdown.Common
import SeriesQuery.Query
import SeriesQuery.StringExpr
import SeriesQuery.Syntax.Chain
import SeriesQuery.Syntax.Feed
import SeriesQuery.Syntax.Operand
import SeriesQuery.Syntax.Parts
import SeriesQuery.Syntax.Query
import SeriesQuery.Template.Expand
import SeriesQuery.Template.Scope
import SeriesQuery.Text.Alphabetic
import SeriesQuery.Text.Blank
import SeriesQuery.Text.Case
import SeriesQuery.Text.Hex
import SeriesQuery.Text.Ident
import SeriesQuery.Text.Numeral
import SeriesQuery.Text.Quoted
import SeriesQuery.Text.Range
import SeriesQuery.Text.Shown
import SeriesQuery.Token.Basic
import SeriesQuery.Token.Cursor
