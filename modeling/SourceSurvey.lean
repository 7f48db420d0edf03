import SourceSurvey.Command.Args
import SourceSurvey.Command.Run
import SourceSurvey.Config
import SourceSurvey.Decimal.Shortest
import SourceSurvey.Docstring
import SourceSurvey.FileName
import SourceSurvey.Files.Change
import SourceSurvey.Files.Failure
import SourceSurvey.Files.Glob
import SourceSurvey.Files.Ignore
import SourceSurvey.Files.Path
import SourceSurvey.Files.Tree
import SourceSurvey.Header
import SourceSurvey.History.Failure
import SourceSurvey.History.Log
import SourceSurvey.History.Tool
import SourceSurvey.Json.Form
import SourceSurvey.Json.Input
import SourceSurvey.Json.Numeral
import SourceSurvey.Json.Problem
import SourceSurvey.Json.Scalar
import SourceSurvey.Json.Skip
import SourceSurvey.Json.Value
import SourceSurvey.Main
import SourceSurvey.Pool
import SourceSurvey.Proofs.Blocks.Derivation
import SourceSurvey.Proofs.Blocks.Extents
import SourceSurvey.Proofs.Blocks.Grammar
import SourceSurvey.Proofs.Blocks.Lines
import SourceSurvey.Proofs.Blocks.Looking
import SourceSurvey.Proofs.Blocks.Offside
import SourceSurvey.Proofs.Blocks.Simple
import SourceSurvey.Proofs.Blocks.Stack
import SourceSurvey.Proofs.Blocks.Statements
import SourceSurvey.Proofs.Command.Effects
import SourceSurvey.Proofs.Files.Alike
import SourceSurvey.Proofs.Files.WellFormed
import SourceSurvey.Proofs.Json.Deciding
import SourceSurvey.Proofs.Json.Enumeration
import SourceSurvey.Proofs.Json.Failing
import SourceSurvey.Proofs.Json.Filling
import SourceSurvey.Proofs.Json.Formed
import SourceSurvey.Proofs.Json.Layouts
import SourceSurvey.Proofs.Json.Reading
import SourceSurvey.Proofs.Json.Spelling
import SourceSurvey.Proofs.LineEnds.Blanks
import SourceSurvey.Proofs.LineEnds.Lexemes
import SourceSurvey.Proofs.LineEnds.Literals
import SourceSurvey.Proofs.LineEnds.Numbers
import SourceSurvey.Proofs.LineEnds.Outcome
import SourceSurvey.Proofs.LineEnds.Places
import SourceSurvey.Proofs.LineEnds.Text
import SourceSurvey.Proofs.LineEnds.Tokens
import SourceSurvey.Proofs.Outline.Headings
import SourceSurvey.Proofs.Outline.Lexemes
import SourceSurvey.Proofs.Outline.Margins
import SourceSurvey.Proofs.Outline.Records
import SourceSurvey.Proofs.Outline.Statements
import SourceSurvey.Proofs.Outline.Text
import SourceSurvey.Proofs.Record.Layouts
import SourceSurvey.Proofs.Record.RoundTrip
import SourceSurvey.Proofs.Scan.Paths
import SourceSurvey.Proofs.Scan.Listing
import SourceSurvey.Proofs.Scan.Order
import SourceSurvey.Proofs.Scan.Walk
import SourceSurvey.Proofs.Source.Shape
import SourceSurvey.Proofs.Survey.Extraction
import SourceSurvey.Proofs.Survey.Pool
import SourceSurvey.Proofs.Syntax.Acceptance
import SourceSurvey.Proofs.Syntax.Block
import SourceSurvey.Proofs.Syntax.Inversion
import SourceSurvey.Proofs.Syntax.Layout
import SourceSurvey.Proofs.Syntax.Lexing
import SourceSurvey.Proofs.Syntax.Line
import SourceSurvey.Proofs.Syntax.Places
import SourceSurvey.Proofs.Syntax.Progress
import SourceSurvey.Proofs.Syntax.Quoting
import SourceSurvey.Proofs.Syntax.Reading
import SourceSurvey.Proofs.Text.Utf8
import SourceSurvey.Record
import SourceSurvey.Record.Json
import SourceSurvey.Scan
import SourceSurvey.Source
import SourceSurvey.Survey
import SourceSurvey.Syntax.CasePattern
import SourceSurvey.Syntax.Cursor
import SourceSurvey.Syntax.Expression
import SourceSurvey.Syntax.Indentation
import SourceSurvey.Syntax.Keyword
import SourceSurvey.Syntax.Layout
import SourceSurvey.Syntax.Lexeme
import SourceSurvey.Syntax.LineEnd
import SourceSurvey.Syntax.Literal
import SourceSurvey.Syntax.Module
import SourceSurvey.Syntax.Number
import SourceSurvey.Syntax.Parameter
import SourceSurvey.Syntax.Parser
import SourceSurvey.Syntax.Place
import SourceSurvey.Syntax.Quotation
import SourceSurvey.Syntax.Shape
import SourceSurvey.Syntax.SimpleStatement
import SourceSurvey.Syntax.Statement
import SourceSurvey.Syntax.Survey
import SourceSurvey.Syntax.Token
import SourceSurvey.Syntax.TypeHint
import SourceSurvey.Syntax.Violation
import SourceSurvey.Text.Blank
import SourceSurvey.Text.Bounds
import SourceSurvey.Text.IdentChar
import SourceSurvey.Text.Quote
import SourceSurvey.Text.Split
import SourceSurvey.Text.Tabs
import SourceSurvey.Text.Utf8
import SourceSurvey.Text.WordChar
import SourceSurvey.Proofs.Blocks.Snippets
import SourceSurvey.Proofs.Survey.History
import SourceSurvey.Proofs.Scan.Rules
import SourceSurvey.Proofs.Scan.Sorting
import SourceSurvey.Proofs.Scan.Exclusion
import SourceSurvey.Proofs.Outline.Headers
import SourceSurvey.Proofs.Files.Linkless
import SourceSurvey.Proofs.Files.Growth
import SourceSurvey.Proofs.Files.Writing
import SourceSurvey.Proofs.Scan.Growth
import SourceSurvey.Proofs.Survey.Rerun
import SourceSurvey.Proofs.Files.Links
import SourceSurvey.Proofs.Files.Frame
import SourceSurvey.Proofs.Balance.Nesting
import SourceSurvey.Proofs.Balance.Expressions
import SourceSurvey.Proofs.Balance.Types
import SourceSurvey.Proofs.Balance.Lines
import SourceSurvey.Proofs.Balance.Statements
import SourceSurvey.Proofs.Blocks.PhysicalLines
import SourceSurvey.Proofs.Blocks.LogicalLines
import SourceSurvey.Proofs.Syntax.Escapes
import SourceSurvey.Proofs.Blocks.Built
import SourceSurvey.Proofs.Blocks.Violations
import SourceSurvey.Proofs.Documentation.Literals
import SourceSurvey.Proofs.Documentation.Reading
import SourceSurvey.Proofs.Documentation.Adjacent
import SourceSurvey.Proofs.Documentation.Beginnings
import SourceSurvey.Proofs.Documentation.Phrases
import SourceSurvey.Proofs.Documentation.Scopes
import SourceSurvey.Proofs.Documentation.Values
import SourceSurvey.Proofs.Documentation.Docstrings
import SourceSurvey.Proofs.Splices.Expressions
import SourceSurvey.Proofs.Splices.Lexemes
import SourceSurvey.Proofs.Splices.Lines
import SourceSurvey.Proofs.Splices.Pieces
import SourceSurvey.Proofs.Splices.Runs
import SourceSurvey.Proofs.Splices.Statements
import SourceSurvey.Proofs.Docstring.Cleaning
import SourceSurvey.Proofs.Docstring.Depth
import SourceSurvey.Proofs.Docstring.Reference
import SourceSurvey.Proofs.Documentation.Spellings
import SourceSurvey.Proofs.Splices.Seams
import SourceSurvey.Proofs.Splices.Docstrings
import SourceSurvey.Proofs.Header.Search
import SourceSurvey.Proofs.Definitions.Offsets
import SourceSurvey.Proofs.Definitions.Parameters
import SourceSurvey.Proofs.Imports.Entries
import SourceSurvey.Proofs.Header.Separators
import SourceSurvey.Proofs.Header.Declarations
import SourceSurvey.Proofs.History.Rows
import SourceSurvey.Proofs.History.Printed
import SourceSurvey.Proofs.Text.TabStops
import SourceSurvey.Proofs.Files.Patterns
import SourceSurvey.Proofs.Scan.Names
import SourceSurvey.Proofs.Json.Scalars
import SourceSurvey.Proofs.Config.Layouts
