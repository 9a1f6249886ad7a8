import CCompletion.Candidate.Basic
import CCompletion.Candidate.Rank
import CCompletion.CommandLine.Arguments
import CCompletion.CommandLine.Failure
import CCompletion.CommandLine.Help
import CCompletion.CommandLine.Invocation
import CCompletion.CommandLine.Run
import CCompletion.CommandLine.Verb
import CCompletion.CommandLine.World
import CCompletion.Completion.Buffer
import CCompletion.Completion.Insertion
import CCompletion.Completion.Offer
import CCompletion.Daemon.Process
import CCompletion.Daemon.Record
import CCompletion.Digest
import CCompletion.Harvest.Include
import CCompletion.Harvest.Shape
import CCompletion.Harvest.Signature
import CCompletion.Harvest.TypeName
import CCompletion.Harvest.Variable
import CCompletion.Ignore.Bracket
import CCompletion.Ignore.Files
import CCompletion.Ignore.Pattern
import CCompletion.Ignore.Rule
import CCompletion.Index.Draft
import CCompletion.Index.Queue
import CCompletion.Index.Table
import CCompletion.Json.Basic
import CCompletion.Json.Printer
import CCompletion.Json.Reader
import CCompletion.Main
import CCompletion.Number.Basic
import CCompletion.Number.Printer
import CCompletion.Number.Reader
import CCompletion.Path
import CCompletion.Refusal
import CCompletion.Report.Basic
import CCompletion.Report.Table
import CCompletion.Scan.Options
import CCompletion.Scan.Source
import CCompletion.Scan.Walk
import CCompletion.Service.Basic
import CCompletion.Service.Call
import CCompletion.Service.Reply
import CCompletion.Service.Schema
import CCompletion.Service.Url
import CCompletion.Settings
import CCompletion.Source.Context
import CCompletion.Source.Line
import CCompletion.Source.Mask
import CCompletion.Source.Position
import CCompletion.Source.Word
import CCompletion.Text.Alternation
import CCompletion.Text.Basic
import CCompletion.Text.Bytes
import CCompletion.Text.Class
import CCompletion.Text.Leading
import CCompletion.Text.LetterCase
import CCompletion.Text.Lowercase
import CCompletion.Text.Width
import CCompletion.Theme
import CCompletion.Vocabulary
import CCompletion.Volume.Access
import CCompletion.Volume.Node
import CCompletion.Warning
import CCompletion.Proofs.Candidate.Rank
import CCompletion.Proofs.Completion.Context
import CCompletion.Proofs.Completion.Header
import CCompletion.Proofs.Completion.Insertion
import CCompletion.Proofs.Completion.Locality
import CCompletion.Proofs.Completion.Offer
import CCompletion.Proofs.Completion.Query
import CCompletion.Proofs.Completion.Search
import CCompletion.Proofs.Harvest.Cut
import CCompletion.Proofs.Harvest.DeclarationList
import CCompletion.Proofs.Harvest.Declarator
import CCompletion.Proofs.Harvest.Enclosed
import CCompletion.Proofs.Harvest.Include
import CCompletion.Proofs.Harvest.LookBack
import CCompletion.Proofs.Harvest.Name
import CCompletion.Proofs.Harvest.Prototype
import CCompletion.Proofs.Harvest.Signature
import CCompletion.Proofs.Harvest.TypeDefinition
import CCompletion.Proofs.Harvest.TypeName
import CCompletion.Proofs.Harvest.Variable
import CCompletion.Proofs.Harvest.VariableTable
import CCompletion.Proofs.Ignore.Directory
import CCompletion.Proofs.Ignore.Glyph
import CCompletion.Proofs.Ignore.Loaded
import CCompletion.Proofs.Ignore.Outside
import CCompletion.Proofs.Ignore.Prefix
import CCompletion.Proofs.Ignore.Scoped
import CCompletion.Proofs.Index.Contents
import CCompletion.Proofs.Index.Queue
import CCompletion.Proofs.Index.Table
import CCompletion.Proofs.Json.Object
import CCompletion.Proofs.Number.Decimal
import CCompletion.Proofs.Number.Rounding
import CCompletion.Proofs.Path
import CCompletion.Proofs.Scan.Alias
import CCompletion.Proofs.Scan.Cap
import CCompletion.Proofs.Scan.Faults
import CCompletion.Proofs.Scan.Files
import CCompletion.Proofs.Scan.Nested
import CCompletion.Proofs.Scan.Order
import CCompletion.Proofs.Scan.Pruning
import CCompletion.Proofs.Scan.Reach
import CCompletion.Proofs.Scan.Walk
import CCompletion.Proofs.Scan.Way
import CCompletion.Proofs.Service.Document
import CCompletion.Proofs.Service.Listing
import CCompletion.Proofs.Service.Url
import CCompletion.Proofs.Settings
import CCompletion.Proofs.Source.Access
import CCompletion.Proofs.Source.CodeWord
import CCompletion.Proofs.Source.Context
import CCompletion.Proofs.Source.Cut
import CCompletion.Proofs.Source.Lexeme
import CCompletion.Proofs.Source.Line
import CCompletion.Proofs.Source.Position
import CCompletion.Proofs.Source.Reading
import CCompletion.Proofs.Source.Region
import CCompletion.Proofs.Source.Typing
import CCompletion.Proofs.Source.Word
import CCompletion.Proofs.Text.Alternation
import CCompletion.Proofs.Text.Ascii
import CCompletion.Proofs.Text.Leading
import CCompletion.Proofs.Text.Lines
import CCompletion.Proofs.Text.Lowercase
import CCompletion.Proofs.Text.Order
import CCompletion.Proofs.Text.Search
import CCompletion.Proofs.Text.Trailing
import CCompletion.Proofs.Vocabulary
import CCompletion.Proofs.Volume.Access
import CCompletion.Proofs.Volume.Node
import CCompletion.Proofs.Volume.Removal
import CCompletion.Proofs.Text.Alternation
import CCompletion.Proofs.Completion.Search
