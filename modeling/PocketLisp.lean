import PocketLisp.Binary64.Arithmetic
import PocketLisp.Binary64.Basic
import PocketLisp.Binary64.Decimal
import PocketLisp.Binary64.Text
import PocketLisp.Console.Arguments
import PocketLisp.Console.CommandLine
import PocketLisp.Console.Directory
import PocketLisp.Error.Basic
import PocketLisp.Eval.Evaluate
import PocketLisp.Eval.Form
import PocketLisp.Eval.Operator
import PocketLisp.Eval.Run
import PocketLisp.Eval.State
import PocketLisp.Event
import PocketLisp.Main
import PocketLisp.Number.Basic
import PocketLisp.Number.Numeral
import PocketLisp.Proofs.Binary64.Decimal
import PocketLisp.Proofs.Binary64.Nearest
import PocketLisp.Proofs.Eval.Answer
import PocketLisp.Proofs.Eval.Arithmetic
import PocketLisp.Proofs.Eval.Blame
import PocketLisp.Proofs.Eval.Closure
import PocketLisp.Proofs.Eval.Commit
import PocketLisp.Proofs.Eval.Confinement
import PocketLisp.Proofs.Eval.Course
import PocketLisp.Proofs.Eval.DepthLimit
import PocketLisp.Proofs.Eval.NameInvariance
import PocketLisp.Proofs.Eval.Origin
import PocketLisp.Proofs.Eval.Precedence
import PocketLisp.Proofs.Eval.Refinement
import PocketLisp.Proofs.Eval.Renaming
import PocketLisp.Proofs.Eval.Request
import PocketLisp.Proofs.Eval.Room
import PocketLisp.Proofs.Eval.Rules
import PocketLisp.Proofs.Eval.Semantics
import PocketLisp.Proofs.Eval.Soundness
import PocketLisp.Proofs.Eval.Termination
import PocketLisp.Proofs.Number.Numeral
import PocketLisp.Proofs.Number.Order
import PocketLisp.Proofs.Number.Pattern
import PocketLisp.Proofs.Reader.Acceptance
import PocketLisp.Proofs.Reader.Agreement
import PocketLisp.Proofs.Reader.Balance
import PocketLisp.Proofs.Reader.Canonical
import PocketLisp.Proofs.Reader.Diagnosis
import PocketLisp.Proofs.Reader.Grammar
import PocketLisp.Proofs.Reader.Legible
import PocketLisp.Proofs.Reader.Lexeme
import PocketLisp.Proofs.Reader.Partition
import PocketLisp.Proofs.Reader.Progress
import PocketLisp.Proofs.Reader.RoundTrip
import PocketLisp.Proofs.Scope.History
import PocketLisp.Proofs.Session.Chunk
import PocketLisp.Proofs.Session.Closure
import PocketLisp.Proofs.Session.Division
import PocketLisp.Proofs.Session.Invariant
import PocketLisp.Proofs.Session.Isolation
import PocketLisp.Proofs.Session.Quotation
import PocketLisp.Proofs.Session.Report
import PocketLisp.Proofs.Session.Script
import PocketLisp.Proofs.Session.Sequence
import PocketLisp.Proofs.Session.Shell
import PocketLisp.Proofs.Value.Equality
import PocketLisp.Reader.Cursor
import PocketLisp.Reader.Parse
import PocketLisp.Reader.Token
import PocketLisp.Scope.Basic
import PocketLisp.Scope.Store
import PocketLisp.Session.Chunk
import PocketLisp.Session.Host
import PocketLisp.Session.Interpreter
import PocketLisp.Session.Journal
import PocketLisp.Session.Script
import PocketLisp.Session.Shell
import PocketLisp.Text.Blank
import PocketLisp.Text.DecimalDigit
import PocketLisp.Text.LineBreak
import PocketLisp.Text.Printable
import PocketLisp.Text.Quoted
import PocketLisp.Text.Ranges
import PocketLisp.Text.Uppercase
import PocketLisp.Text.Utf8
import PocketLisp.Value.Basic
import PocketLisp.Value.Print
