import Lipi.CommandLine.Arguments
import Lipi.CommandLine.Help
import Lipi.CommandLine.Run
import Lipi.Compilation.Compile
import Lipi.Compilation.Event
import Lipi.Compilation.LogFilter
import Lipi.Compilation.Stage
import Lipi.Decimal.Binary64
import Lipi.Diagnostic
import Lipi.Execution
import Lipi.Json
import Lipi.Keyword
import Lipi.Machine.FileTree
import Lipi.Machine.Launch
import Lipi.Machine.ProgramRun
import Lipi.Machine.Shell.Command
import Lipi.Machine.Shell.Reader
import Lipi.Machine.Shell.Run
import Lipi.Machine.Shell.Utility
import Lipi.Machine.SystemError
import Lipi.Main
import Lipi.Position
import Lipi.Program.Brace
import Lipi.Program.Branch
import Lipi.Program.Comment
import Lipi.Program.Loop
import Lipi.Program.Markers
import Lipi.Program.Statement
import Lipi.Proofs.Compilation.FixedPoint
import Lipi.Proofs.Compilation.LoopControl
import Lipi.Proofs.Compilation.Rejection
import Lipi.Proofs.Compilation.Stages
import Lipi.Proofs.Compilation.Surroundings
import Lipi.Proofs.Position
import Lipi.Proofs.Program.Brace
import Lipi.Proofs.Program.FaultPlace
import Lipi.Proofs.Program.LoopHeader
import Lipi.Proofs.Program.Normalization
import Lipi.Proofs.Program.OpenBlocks
import Lipi.Proofs.Text.Balance
import Lipi.Proofs.Text.Lines
import Lipi.Proofs.Text.Occurrence
import Lipi.Proofs.Text.Space
import Lipi.Proofs.Token.Rewriting
import Lipi.Proofs.Token.Runs
import Lipi.Session
import Lipi.Settings.Basic
import Lipi.Settings.Key
import Lipi.Settings.Layer
import Lipi.Settings.Setting
import Lipi.Settings.Tree
import Lipi.Source
import Lipi.Text.Basic
import Lipi.Text.Lines
import Lipi.Text.Search
import Lipi.Text.Space
import Lipi.Text.Utf8
import Lipi.Text.WordChar
import Lipi.Token
import Lipi.Toml.Document
import Lipi.Toml.Moment
import Lipi.Toml.Number
import Lipi.Toml.Quoted
import Lipi.Toml.Reader
import Lipi.Toml.Table
import Lipi.Toml.Value
import Lipi.Proofs.Compilation.PlainForm
import Lipi.Proofs.Compilation.RewritingOrder
import Lipi.Proofs.Program.LoopTracking
import Lipi.Proofs.Compilation.LoopWord
import Lipi.Proofs.Compilation.AddedComment
import Lipi.Proofs.Compilation.Chain
import Lipi.Proofs.Text.BracketPairs
import Lipi.Proofs.Program.Enclosure
import Lipi.Proofs.Text.Escapes
import Lipi.Proofs.Program.CommentItems
import Lipi.Proofs.Token.Segmentation
import Lipi.Proofs.Token.Survivors
import Lipi.Proofs.Program.BranchShape
import Lipi.Proofs.Program.BraceCount
import Lipi.Proofs.LineTable
import Lipi.Proofs.Program.MarkerSearch
import Lipi.Proofs.Execution
import Lipi.Proofs.Settings.Fields
import Lipi.Proofs.Settings.Layering
import Lipi.Proofs.Token.Seams
import Lipi.Proofs.Json.Reader
import Lipi.Proofs.Json.RoundTrip
import Lipi.Proofs.CommandLine.OutputFormat
import Lipi.Proofs.Program.HeaderBrace
import Lipi.Proofs.Program.LoopHits
import Lipi.Proofs.Settings.Store
import Lipi.Proofs.Settings.Precedence
