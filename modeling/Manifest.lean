import Manifest.Text.Bytes
import Manifest.Text.Utf8
import Manifest.Text.Position
import Manifest.Text.LineTable
import Manifest.Text.Source
import Manifest.Text.Survey
import Manifest.Unicode.Ranges
import Manifest.Unicode.WhiteSpace
import Manifest.Unicode.IdentifierStart
import Manifest.Unicode.Lowercase
import Manifest.Binary64.Basic
import Manifest.Binary64.Decimal
import Manifest.Diagnostic.Code
import Manifest.Diagnostic.Basic
import Manifest.Token.Kind
import Manifest.Token.Basic
import Manifest.Literal.Number
import Manifest.Quote.Escape
import Manifest.Quote.Run
import Manifest.Token.Shape
import Manifest.HereDoc.Header
import Manifest.HereDoc.Body
import Manifest.Template.Basic
import Manifest.Scan.Problem
import Manifest.Scan.State
import Manifest.Scan.Opening
import Manifest.Scan.Rule
import Manifest.Scan.Step
import Manifest.TokenStream
import Manifest.Sexp.Basic
import Manifest.Sexp.Lexeme
import Manifest.Sexp.Printer
import Manifest.Sexp.Reader
import Manifest.Tree.Operator
import Manifest.Tree.Basic
import Manifest.Tree.Children
import Manifest.Tree.Size
import Manifest.Tree.Walk
import Manifest.Tree.Equality
import Manifest.Tree.Program
import Manifest.Sexp.OfTree
import Manifest.Build.Problem
import Manifest.Build.Ranged
import Manifest.Build.Material
import Manifest.Build.Call
import Manifest.Build.Form
import Manifest.Build.Interpolation
import Manifest.Build.Shape
import Manifest.Legacy.OfTree
import Manifest.Legacy.Problem
import Manifest.Legacy.Tree
import Manifest.Proofs.Binary64.Rounding
import Manifest.Proofs.Binary64.Numeral
import Manifest.Proofs.Binary64.RoundTrip
import Manifest.Proofs.Sexp.Lexeme
import Manifest.Proofs.Sexp.Scalar
import Manifest.Proofs.Text.Bytes
import Manifest.Proofs.Sexp.RoundTrip
import Manifest.Proofs.Token.Reserved
import Manifest.Proofs.Token.Shape
import Manifest.Proofs.Quote.Escape
import Manifest.Proofs.Quote.Run
import Manifest.Proofs.Template.Stretch
import Manifest.Proofs.Template.Written
import Manifest.Proofs.HereDoc.Body
import Manifest.Proofs.Scan.Cursor
import Manifest.Proofs.Scan.Opening
import Manifest.Proofs.Scan.Rule
import Manifest.Proofs.Scan.Run
import Manifest.Proofs.Scan.HereDoc
import Manifest.Proofs.Scan.Progress
import Manifest.Proofs.Scan.Fuel
import Manifest.Proofs.Scan.Unique
import Manifest.Proofs.Scan.Calls
import Manifest.Proofs.TokenStream.Pull
import Manifest.Proofs.TokenStream.Fullscan
import Manifest.Proofs.Scan.Kinds
import Manifest.Proofs.Scan.Layout
import Manifest.Proofs.Scan.Spacing
import Manifest.Proofs.TokenStream.Coverage
import Manifest.Proofs.Token.Pattern
import Manifest.Proofs.Token.Numeral
import Manifest.Proofs.Quote.Single
import Manifest.Proofs.Scan.Spelling
import Manifest.Proofs.Scan.Item
import Manifest.Proofs.TokenStream.Rendering
import Manifest.Proofs.Text.Places
import Manifest.Proofs.Text.LineTable
import Manifest.Proofs.Text.Survey
import Manifest.Proofs.Text.Utf8
import Manifest.Proofs.Text.Lines
import Manifest.Proofs.HereDoc.Lines
import Manifest.Proofs.Scan.Path
import Manifest.Proofs.Scan.Partition
import Manifest.Proofs.Scan.Origin
import Manifest.Proofs.Scan.Lifted
import Manifest.Proofs.Scan.InCode
import Manifest.Proofs.Scan.Footprint
import Manifest.Proofs.Scan.Leads
import Manifest.Proofs.TokenStream.Given
import Manifest.Proofs.TokenStream.Footprint
import Manifest.Proofs.TokenStream.Numbers
import Manifest.Proofs.TokenStream.Path
import Manifest.Proofs.Token.Nesting
import Manifest.Proofs.Scan.Quiet
import Manifest.Proofs.Scan.Nesting
import Manifest.Proofs.Scan.Unclosed
import Manifest.Proofs.TokenStream.Nesting
import Manifest.Proofs.Legacy.Refusal
import Manifest.Proofs.Legacy.Erasure
import Manifest.Proofs.Tree.Bare
import Manifest.Proofs.Legacy.Alike
import Manifest.Proofs.Legacy.Merge
import Manifest.Proofs.Legacy.Places
import Manifest.Proofs.Sexp.Rules
import Manifest.Proofs.Sexp.LongestMatch
import Manifest.Proofs.Sexp.Grammar
import Manifest.Proofs.Sexp.Acceptance
import Manifest.Proofs.Sexp.Rejection
import Manifest.Proofs.Sexp.Symbol
import Manifest.Proofs.Scan.Lookback
import Manifest.Proofs.Scan.Rendered
import Manifest.Proofs.Scan.Preceding
import Manifest.Proofs.TokenStream.Template
import Manifest.Proofs.TokenStream.Preceding
import Manifest.Proofs.Build.Interchange
import Manifest.Proofs.TokenStream.Iterate
import Manifest.Proofs.Tree.Children
import Manifest.Proofs.Tree.Place
import Manifest.Proofs.Tree.Defines
import Manifest.Proofs.Tree.Index
import Manifest.Proofs.Scan.Retold
import Manifest.Proofs.Scan.Muted
import Manifest.Proofs.TokenStream.Muted
import Manifest.Proofs.Quote.Unknown
import Manifest.Proofs.Scan.Issue
import Manifest.Proofs.Scan.Report
import Manifest.Proofs.TokenStream.Report
import Manifest.Proofs.Legacy.Steps
import Manifest.Proofs.Legacy.Trail
import Manifest.Proofs.Legacy.LastWins
import Manifest.Proofs.Legacy.Query
import Manifest.Proofs.Build.StatementCalls
import Manifest.Proofs.Build.Head
import Manifest.Proofs.Quote.Closing
import Manifest.Proofs.Literal.Integer
import Manifest.Proofs.Literal.Positional
import Manifest.Proofs.Literal.Valid
import Manifest.Proofs.Quote.Written
import Manifest.Proofs.Scan.Quoted
import Manifest.Proofs.TokenStream.Written
import Manifest.Proofs.TokenStream.Unclosed
import Manifest.Proofs.TokenStream.WrittenTemplate
import Manifest.Proofs.Quote.Verbatim
import Manifest.Proofs.Scan.Verbatim
import Manifest.Proofs.TokenStream.Verbatim
import Manifest.Proofs.Text.Order
import Manifest.Proofs.HereDoc.EndLine
import Manifest.Proofs.Token.Regex
import Manifest.Proofs.Scan.Slash
import Manifest.Proofs.Scan.Line
import Manifest.Proofs.Scan.Invariant
import Manifest.Proofs.Scan.Paren
import Manifest.Proofs.TokenStream.Paren
import Manifest.Proofs.Text.Tabled
import Manifest.Proofs.Token.Longest
import Manifest.Proofs.Scan.CharOffset
import Manifest.Proofs.Scan.Nested
