import ScriptLint.CommandLine.Options
import ScriptLint.CommandLine.Request
import ScriptLint.CommandLine.Run
import ScriptLint.Config
import ScriptLint.Dialect
import ScriptLint.Failure
import ScriptLint.FileSystem
import ScriptLint.Json.Basic
import ScriptLint.Json.Reader
import ScriptLint.Json.Writer
import ScriptLint.Keyed
import ScriptLint.Lint.Diagnostic
import ScriptLint.Lint.Directive
import ScriptLint.Lint.Files
import ScriptLint.Lint.Linter
import ScriptLint.Lint.Report
import ScriptLint.Lint.Rule
import ScriptLint.Lint.Selection
import ScriptLint.Lint.WindowAccess
import ScriptLint.Literal
import ScriptLint.Log
import ScriptLint.Main
import ScriptLint.Member
import ScriptLint.Path
import ScriptLint.Program
import ScriptLint.Proofs.CommandLine.Counting
import ScriptLint.Proofs.CommandLine.Report
import ScriptLint.Proofs.CommandLine.Settings
import ScriptLint.Proofs.Config
import ScriptLint.Proofs.Files.Directories
import ScriptLint.Proofs.Files.Expansion
import ScriptLint.Proofs.Files.Inheritance
import ScriptLint.Proofs.Files.Lookup
import ScriptLint.Proofs.Files.Results
import ScriptLint.Proofs.Files.Settings
import ScriptLint.Proofs.Files.Spelling
import ScriptLint.Proofs.Files.Trails
import ScriptLint.Proofs.Json.RoundTrip
import ScriptLint.Proofs.Lint.Batches
import ScriptLint.Proofs.Lint.Context
import ScriptLint.Proofs.Lint.DirectiveText
import ScriptLint.Proofs.Lint.Entries
import ScriptLint.Proofs.Lint.Order
import ScriptLint.Proofs.Lint.Sorting
import ScriptLint.Proofs.Lint.Spelling
import ScriptLint.Proofs.Lint.Suppression
import ScriptLint.Proofs.Lint.Tally
import ScriptLint.Proofs.Lint.Visits
import ScriptLint.Proofs.Lint.WindowAccess
import ScriptLint.Proofs.Log
import ScriptLint.Proofs.Scope.Binding
import ScriptLint.Proofs.Scope.Carried
import ScriptLint.Proofs.Scope.Contents
import ScriptLint.Proofs.Scope.History
import ScriptLint.Proofs.Scope.Keys
import ScriptLint.Proofs.Scope.Lookup
import ScriptLint.Proofs.Scope.Namespace
import ScriptLint.Proofs.Scope.Openers
import ScriptLint.Proofs.Scope.Places
import ScriptLint.Proofs.Scope.Resolution
import ScriptLint.Proofs.Scope.Rewriting
import ScriptLint.Proofs.Syntax.Access
import ScriptLint.Proofs.Syntax.Emptying
import ScriptLint.Proofs.Syntax.FirstError
import ScriptLint.Proofs.Syntax.Layout
import ScriptLint.Proofs.Syntax.Snippet
import ScriptLint.Proofs.Syntax.StringLiteral
import ScriptLint.Proofs.Syntax.Walk
import ScriptLint.Proofs.Text.Coordinates
import ScriptLint.Proofs.Text.Cutting
import ScriptLint.Proofs.Text.Encoding
import ScriptLint.Proofs.Text.LineBreaks
import ScriptLint.Proofs.Text.Ordered
import ScriptLint.Proofs.Text.Position
import ScriptLint.Proofs.Text.Rows
import ScriptLint.Proofs.Text.Utf8
import ScriptLint.Scope.Declaration
import ScriptLint.Scope.Forest
import ScriptLint.Scope.Table
import ScriptLint.Snapshot
import ScriptLint.Source
import ScriptLint.Syntax.Node
import ScriptLint.Syntax.Site
import ScriptLint.Text.Blank
import ScriptLint.Text.Digit
import ScriptLint.Text.Ordered
import ScriptLint.Text.Printable
import ScriptLint.Text.Quoted
import ScriptLint.Text.Utf8
import ScriptLint.Workspace
