import PatternCompiler.Artifact
import PatternCompiler.CommandLine.Arguments
import PatternCompiler.CommandLine.Run
import PatternCompiler.Compile
import PatternCompiler.Cursor
import PatternCompiler.Decimal.Scaled
import PatternCompiler.Decimal.Shortest
import PatternCompiler.Diagnostic
import PatternCompiler.Editor
import PatternCompiler.Expectation
import PatternCompiler.Fault
import PatternCompiler.Flags
import PatternCompiler.Header
import PatternCompiler.Hint
import PatternCompiler.Iteration
import PatternCompiler.Json.Basic
import PatternCompiler.Json.Reader
import PatternCompiler.Json.Writer
import PatternCompiler.Log
import PatternCompiler.Main
import PatternCompiler.Pattern.Basic
import PatternCompiler.Pattern.Codec
import PatternCompiler.Pattern.Describe
import PatternCompiler.Pattern.Feature
import PatternCompiler.Pattern.Names
import PatternCompiler.Pattern.Normal
import PatternCompiler.Pattern.Pcre2
import PatternCompiler.Proofs.Agreement
import PatternCompiler.Proofs.Blame
import PatternCompiler.Proofs.Brackets
import PatternCompiler.Proofs.Carets
import PatternCompiler.Proofs.Classes
import PatternCompiler.Proofs.CodePoints
import PatternCompiler.Proofs.Codes
import PatternCompiler.Proofs.Consumption
import PatternCompiler.Proofs.Continuation
import PatternCompiler.Proofs.Courses
import PatternCompiler.Proofs.Eagerness
import PatternCompiler.Proofs.Emission
import PatternCompiler.Proofs.Escapes
import PatternCompiler.Proofs.Failing
import PatternCompiler.Proofs.Features
import PatternCompiler.Proofs.Fixpoint
import PatternCompiler.Proofs.FreeSpacing
import PatternCompiler.Proofs.Grammar
import PatternCompiler.Proofs.Headers
import PatternCompiler.Proofs.HintChoice
import PatternCompiler.Proofs.HintQuotes
import PatternCompiler.Proofs.Hints
import PatternCompiler.Proofs.Ignorable
import PatternCompiler.Proofs.LineEndings
import PatternCompiler.Proofs.Lines
import PatternCompiler.Proofs.Locations
import PatternCompiler.Proofs.Meaning
import PatternCompiler.Proofs.Messages
import PatternCompiler.Proofs.NormalForm
import PatternCompiler.Proofs.NormalText
import PatternCompiler.Proofs.Numbers
import PatternCompiler.Proofs.Openings
import PatternCompiler.Proofs.Progress
import PatternCompiler.Proofs.Quantifiers
import PatternCompiler.Proofs.Recognition
import PatternCompiler.Proofs.References
import PatternCompiler.Proofs.Regroup
import PatternCompiler.Proofs.Reports
import PatternCompiler.Proofs.Reuse
import PatternCompiler.Proofs.Rewriting
import PatternCompiler.Proofs.RoundTrip
import PatternCompiler.Proofs.Scanning
import PatternCompiler.Proofs.Serialisation
import PatternCompiler.Proofs.Settling
import PatternCompiler.Proofs.Shape
import PatternCompiler.Proofs.Tokens
import PatternCompiler.Proofs.Tree
import PatternCompiler.Proofs.WellFormed
import PatternCompiler.Reading.Captures
import PatternCompiler.Reading.CharClass
import PatternCompiler.Reading.Escape
import PatternCompiler.Reading.Group
import PatternCompiler.Reading.Machine
import PatternCompiler.Reading.Quantifier
import PatternCompiler.Reading.Scan
import PatternCompiler.Report
import PatternCompiler.Settings
import PatternCompiler.Settings.Moment
import PatternCompiler.Settings.Toml
import PatternCompiler.Settings.Value
import PatternCompiler.Source
import PatternCompiler.Text.Blank
import PatternCompiler.Text.Invisible
import PatternCompiler.Text.Lines
import PatternCompiler.Text.Quoted
import PatternCompiler.Text.Ranges
import PatternCompiler.Text.Search
import PatternCompiler.Text.Uppercase
import PatternCompiler.Text.Utf8
