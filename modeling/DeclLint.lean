import DeclLint.CommandLine.Arguments
import DeclLint.CommandLine.Program
import DeclLint.CommandLine.Report
import DeclLint.CommandLine.Style
import DeclLint.Configuration.Basic
import DeclLint.Configuration.Document
import DeclLint.Configuration.File
import DeclLint.Configuration.Override
import DeclLint.CorrectedText
import DeclLint.Declaration.Kind
import DeclLint.Declaration.ParseError
import DeclLint.Declaration.StructureJson
import DeclLint.Declaration.Tree
import DeclLint.Directive
import DeclLint.FileResult
import DeclLint.Files.Discovery
import DeclLint.Files.Fault
import DeclLint.Files.Host
import DeclLint.Files.Lint
import DeclLint.Files.Machine
import DeclLint.Files.Path
import DeclLint.Files.Tree
import DeclLint.Finding
import DeclLint.Json.Basic
import DeclLint.Json.Decode
import DeclLint.Json.Printer
import DeclLint.Json.Reader
import DeclLint.Linter
import DeclLint.Location
import DeclLint.Log
import DeclLint.Report
import DeclLint.Rule.Basic
import DeclLint.Rule.Registry
import DeclLint.Rule.RuntimeLet
import DeclLint.RunLog.Calendar
import DeclLint.RunLog.Entry
import DeclLint.RunLog.EntryJson
import DeclLint.RunLog.File
import DeclLint.Source.File
import DeclLint.Source.Outline
import DeclLint.Source.Piece
import DeclLint.Source.Token
import DeclLint.Text.Blank
import DeclLint.Text.Line
import DeclLint.Text.Offset
import DeclLint.Text.Quoted
import DeclLint.Text.Range
import DeclLint.Text.VisibleCharacter
import DeclLint.Text.WordCharacter
import DeclLint.Toml.Bare
import DeclLint.Toml.Basic
import DeclLint.Toml.Quoted
import DeclLint.Toml.Reader
import DeclLint.Main
import DeclLint.Proofs.Correction.Selection
import DeclLint.Proofs.Correction.Splice
import DeclLint.Proofs.Outline.Derivation
import DeclLint.Proofs.Source.Cutting
import DeclLint.Proofs.Source.TokenLayout
import DeclLint.Proofs.Declaration.Walk
import DeclLint.Proofs.Outline.Node
import DeclLint.Proofs.Outline.Placement
import DeclLint.Proofs.Source.Recast
import DeclLint.Proofs.Outline.Recast
import DeclLint.Proofs.Rule.RuntimeLet
import DeclLint.Proofs.Linter.Autocorrect
import DeclLint.Proofs.Source.Bracket
import DeclLint.Proofs.Outline.Nesting
import DeclLint.Proofs.Outline.Stretch
import DeclLint.Proofs.Outline.Segment
import DeclLint.Proofs.Outline.Astray
import DeclLint.Proofs.Outline.Frames
import DeclLint.Proofs.Outline.Balance
import DeclLint.Proofs.Outline.Order
import DeclLint.Proofs.Linter.Exactness
import DeclLint.Proofs.Linter.Agreement
import DeclLint.Proofs.Correction.Frame
import DeclLint.Proofs.Linter.Origin
import DeclLint.Proofs.Outline.Skeleton
import DeclLint.Proofs.Outline.Recovery
import DeclLint.Proofs.Text.LineEnding
import DeclLint.Proofs.Source.LineEnding
import DeclLint.Proofs.Source.MovedToken
import DeclLint.Proofs.Directive.LineEnding
import DeclLint.Proofs.Outline.Respelling
import DeclLint.Proofs.Outline.LineEnding
import DeclLint.Proofs.Linter.LineEnding
import DeclLint.Proofs.Correction.Order
import DeclLint.Proofs.Correction.Cause
import DeclLint.Proofs.Correction.Stepwise
import DeclLint.Proofs.Files.Machine
import DeclLint.Proofs.Files.Task
import DeclLint.Proofs.Linter.CorrectedSource
import DeclLint.Proofs.Files.Interleaving
import DeclLint.Proofs.Outline.Scoping
import DeclLint.Proofs.Directive.Spelling
import DeclLint.Proofs.Linter.LetToVar
import DeclLint.Proofs.Directive.Meaning
import DeclLint.Proofs.Configuration.Selection
import DeclLint.Proofs.Text.Boundary
import DeclLint.Proofs.Text.Line
import DeclLint.Proofs.Linter.ValidEdit
import DeclLint.Proofs.Checked.Operation
import DeclLint.Proofs.Checked.Correction
import DeclLint.Proofs.Checked.Index
import DeclLint.Proofs.Checked.Linter
import DeclLint.Proofs.Linter.Isolation
import DeclLint.Proofs.Source.QuotedLiteral
import DeclLint.Proofs.Source.Locality
import DeclLint.Proofs.Source.NestedComment
import DeclLint.Proofs.Source.Reading
import DeclLint.Proofs.Source.Partition
import DeclLint.Proofs.Source.Seam
import DeclLint.Proofs.Source.Unterminated
import DeclLint.Proofs.Source.SingleLine
import DeclLint.Proofs.Outline.Fault
import DeclLint.Proofs.Outline.Comment
import DeclLint.Proofs.Text.Byte
import DeclLint.Proofs.Checked.Literal
import DeclLint.Proofs.Checked.Tokenizer
import DeclLint.Proofs.Checked.Scanner
import DeclLint.Proofs.Checked.Place
import DeclLint.Proofs.Checked.Round
import DeclLint.Proofs.Checked.Parse
import DeclLint.Proofs.Declaration.Preorder
import DeclLint.Proofs.Json.Grammar
import DeclLint.Proofs.Json.Lexeme
import DeclLint.Proofs.Json.Reading
import DeclLint.Proofs.Json.Printing
import DeclLint.Proofs.Report.Json
import DeclLint.Proofs.Declaration.StructureJson
import DeclLint.Proofs.Files.Path
import DeclLint.Proofs.Files.Discovery
