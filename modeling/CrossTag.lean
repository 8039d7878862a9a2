import CrossTag.Attrs
import CrossTag.Build
import CrossTag.Command.Arguments
import CrossTag.Command.Run
import CrossTag.Command.Search
import CrossTag.Config
import CrossTag.Entry
import CrossTag.Failure
import CrossTag.Files.Ignore
import CrossTag.Files.Path
import CrossTag.Files.Tree
import CrossTag.Files.Walk
import CrossTag.Index.Basic
import CrossTag.Index.Filter
import CrossTag.Index.Reader
import CrossTag.Index.Resolve
import CrossTag.Index.Store
import CrossTag.Index.Text
import CrossTag.Lint.Basic
import CrossTag.Lint.Rule
import CrossTag.Location
import CrossTag.Main
import CrossTag.Pattern.Basic
import CrossTag.Pattern.Glob
import CrossTag.Pattern.Regex.Basic
import CrossTag.Pattern.Regex.Class
import CrossTag.Pattern.Regex.Reader
import CrossTag.Pattern.Wildcard
import CrossTag.Proofs.Attrs
import CrossTag.Proofs.Text
import CrossTag.Proofs.Utf8
import CrossTag.Record
import CrossTag.Scan
import CrossTag.Shell.Run
import CrossTag.Shell.Script
import CrossTag.Shell.Word
import CrossTag.Tag.Element
import CrossTag.Tag.Escape
import CrossTag.Tag.Reader
import CrossTag.Tag.Token
import CrossTag.Text.Blank
import CrossTag.Text.CaseFold
import CrossTag.Text.Category
import CrossTag.Text.Cut
import CrossTag.Text.Digits
import CrossTag.Text.Json
import CrossTag.Text.Quoted
import CrossTag.Text.Utf8
import CrossTag.Watch
import CrossTag.Yaml.Node
import CrossTag.Yaml.Scalar
import CrossTag.Yaml.Token
import CrossTag.Proofs.Location
import CrossTag.Proofs.Record
import CrossTag.Proofs.Tag.Grammar
import CrossTag.Proofs.Tag.Reader
import CrossTag.Proofs.Store
import CrossTag.Proofs.Index
import CrossTag.Proofs.Glob
import CrossTag.Proofs.Resolve
import CrossTag.Proofs.ResolveAt
import CrossTag.Proofs.Path
import CrossTag.Proofs.Scan
import CrossTag.Proofs.Walk
import CrossTag.Proofs.Watch
import CrossTag.Proofs.Build
import CrossTag.Proofs.Write
import CrossTag.Proofs.Stored
import CrossTag.Proofs.Pragmas
import CrossTag.Proofs.Reader
import CrossTag.Proofs.Directories
import CrossTag.Proofs.Writers
import CrossTag.Proofs.Canonical
import CrossTag.Proofs.Circuit
import CrossTag.Proofs.Scopes
import CrossTag.Proofs.Tag.WellFormed
import CrossTag.Proofs.Assignment
import CrossTag.Proofs.Below
import CrossTag.Proofs.Tag.Placement
import CrossTag.Proofs.Columns
import CrossTag.Proofs.Cursor
import CrossTag.Proofs.Literal
import CrossTag.Proofs.OwnFile
import CrossTag.Proofs.Environment
import CrossTag.Proofs.Lint
import CrossTag.Proofs.LineOrder
import CrossTag.Proofs.SameFile
import CrossTag.Proofs.FirstFailure
import CrossTag.Proofs.Search
import CrossTag.Proofs.Sniff
import CrossTag.Proofs.Tag.Quoted
import CrossTag.Proofs.Tag.Tokens
import CrossTag.Proofs.LineEnds
import CrossTag.Proofs.Shown
