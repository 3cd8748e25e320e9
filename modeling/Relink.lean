import Relink.Command.Run
import Relink.Json.Printer
import Relink.Main
import Relink.Report
import Relink.Path.Relative
import Relink.Shell.Run
import Relink.Tree.Difference
import Relink.Verdict
import Relink.Watch
import Relink.Proofs.Repetition
import Relink.Proofs.Script.Rendering
import Relink.Proofs.Splice
import Relink.Proofs.Completeness
import Relink.Proofs.Literal
import Relink.Proofs.Attempt
import Relink.Proofs.Tracked
import Relink.Proofs.Frame
import Relink.Proofs.Schedule
import Relink.Proofs.Script.Locality
import Relink.Proofs.Tree.Putting
import Relink.Proofs.Interference
import Relink.Proofs.Host.Atomicity
import Relink.Proofs.Host.Temporary
import Relink.Proofs.Cursor.Span
import Relink.Proofs.Watch.Hidden
import Relink.Proofs.Watch.Loop
import Relink.Proofs.Watch.Rest
import Relink.Proofs.Watch.Settling
import Relink.Proofs.Relocation
import Relink.Proofs.Command.Preparing
import Relink.Proofs.Command.Cleaning
import Relink.Proofs.Command.Telling
import Relink.Proofs.Script.Argument
import Relink.Proofs.Script.Nesting
import Relink.Proofs.Stock
import Relink.Proofs.Warnings
import Relink.Proofs.Tree.Order
import Relink.Proofs.Tree.Pruning
import Relink.Proofs.Host.Wholeness
import Relink.Proofs.Specifier.Grammar
import Relink.Proofs.Alteration
import Relink.Proofs.Extension
import Relink.Proofs.Cursor.Counter
import Relink.Proofs.Cursor.Escape
import Relink.Proofs.Script.Call
import Relink.Proofs.Script.LineBreak
import Relink.Proofs.Aliasing
import Relink.Proofs.Path.Distance
import Relink.Proofs.Path.Normal
import Relink.Proofs.Script.Slash
