import TypedContracts.Chain.Scripted
import TypedContracts.Main
import TypedContracts.Receipts.Events
import TypedContracts.Receipts.Failures
import TypedContracts.Session.Draft
import TypedContracts.Source.Echo
import TypedContracts.Toolchain.Scripted
import TypedContracts.Proofs.SExp.Grammar
import TypedContracts.Proofs.SExp.Lexing
import TypedContracts.Proofs.SExp.Printing
import TypedContracts.Proofs.Dump.Format
import TypedContracts.Proofs.Result
import TypedContracts.Proofs.Cache.Run
import TypedContracts.Proofs.Call.Arguments
import TypedContracts.Proofs.Dump.Extraction
import TypedContracts.Proofs.Dump.RoundTrip
import TypedContracts.Proofs.Session.Submission
import TypedContracts.Proofs.Call.Encoding
import TypedContracts.Proofs.Call.Literal
import TypedContracts.Proofs.Call.Overrides
import TypedContracts.Proofs.Files.Write
import TypedContracts.Proofs.Cache.Report
import TypedContracts.Proofs.Cache.History
import TypedContracts.Proofs.Source.Find
import TypedContracts.Proofs.SExp.Escapes
import TypedContracts.Proofs.SExp.Survival
import TypedContracts.Proofs.Text.Lines
import TypedContracts.Proofs.Source.Pieces
import TypedContracts.Proofs.Source.Compressed
import TypedContracts.Proofs.Source.Marks
import TypedContracts.Proofs.Source.Tokens
import TypedContracts.Proofs.Dump.Canonical
import TypedContracts.Proofs.Call.Freshness
import TypedContracts.Proofs.Call.OverridesStored
import TypedContracts.Proofs.Dump.Alike
import TypedContracts.Proofs.Dump.TypeText
import TypedContracts.Proofs.Dump.Unread
import TypedContracts.Proofs.Session.Trailing
import TypedContracts.Proofs.Cache.Lossless
import TypedContracts.Proofs.Session.Layers
import TypedContracts.Proofs.Value.Reread
import TypedContracts.Proofs.Session.Draft
import TypedContracts.Proofs.Wrapper.Legal
import TypedContracts.Proofs.Session.Callable
import TypedContracts.Proofs.Cache.Blocking
import TypedContracts.Proofs.Value.Integers
import TypedContracts.Proofs.Json.Canonical
import TypedContracts.Proofs.Settings.Builds
import TypedContracts.Proofs.Settings.Strict
import TypedContracts.Proofs.Cache.Origin
import TypedContracts.Proofs.Session.Sources
import TypedContracts.Proofs.Session.Attempts
import TypedContracts.Proofs.Call.Constructed
import TypedContracts.Proofs.Source.Repeated
import TypedContracts.Proofs.Source.Relative
import TypedContracts.Proofs.Cache.Account
import TypedContracts.Proofs.Source.Literals
import TypedContracts.Proofs.Wrapper.Clashes
import TypedContracts.Proofs.Receipts.Shapes
import TypedContracts.Proofs.Cache.Names
import TypedContracts.Proofs.Value.Same
import TypedContracts.Proofs.Receipts.Matching
import TypedContracts.Proofs.Dump.Malformed
import TypedContracts.Proofs.Text.Position
import TypedContracts.Proofs.SExp.Runs
import TypedContracts.Proofs.SExp.Faults
import TypedContracts.Proofs.SExp.Messages
import TypedContracts.Proofs.SExp.Rejection
import TypedContracts.Proofs.Receipts.Failures
import TypedContracts.Proofs.Command.Check
import TypedContracts.Proofs.Source.Blanked
import TypedContracts.Proofs.SExp.Progress
import TypedContracts.Proofs.Wrapper.SnakeCase
