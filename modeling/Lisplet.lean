import Lisplet.Command.Basic
import Lisplet.Command.Outcome
import Lisplet.Eval.Action
import Lisplet.Eval.Depth
import Lisplet.Eval.Evaluator
import Lisplet.Eval.Fault
import Lisplet.Eval.Native
import Lisplet.Eval.Operator
import Lisplet.Eval.Session
import Lisplet.Expr.Basic
import Lisplet.Expr.Dump
import Lisplet.Expr.Keyword
import Lisplet.Expr.Printer
import Lisplet.Main
import Lisplet.Object.Heap
import Lisplet.Object.Value
import Lisplet.Object.Text
import Lisplet.Proofs.Reader.Cursor
import Lisplet.Proofs.Reader.Grammar
import Lisplet.Reader.Basic
import Lisplet.Reader.Error
import Lisplet.Reader.Frame
import Lisplet.Reader.Source
import Lisplet.Report.Basic
import Lisplet.Report.Error
import Lisplet.Text.Line
import Lisplet.Text.Dump
import Lisplet.Text.Numeral
import Lisplet.Text.Printable
import Lisplet.Token.Basic
import Lisplet.Token.Scanner
import Lisplet.Proofs.Reader.Completeness
import Lisplet.Proofs.Reader.Acceptance
import Lisplet.Proofs.Token.Layout
import Lisplet.Proofs.Expr.Lines
import Lisplet.Proofs.Expr.RoundTrip
import Lisplet.Proofs.Eval.Realm
import Lisplet.Proofs.Object.Chain
import Lisplet.Proofs.Eval.Safety
import Lisplet.Proofs.Session.Invariant
import Lisplet.Proofs.Session.Encapsulation
import Lisplet.Proofs.Session.Reach
import Lisplet.Proofs.Session.Unlined
import Lisplet.Proofs.Session.ErrorLines
import Lisplet.Proofs.Reader.Viable
import Lisplet.Proofs.Token.Cutting
import Lisplet.Proofs.Eval.Abrupt
import Lisplet.Proofs.Eval.Course
import Lisplet.Proofs.Session.Endings
import Lisplet.Proofs.Token.Append
import Lisplet.Proofs.Reader.Lines
import Lisplet.Proofs.Reader.Append
import Lisplet.Proofs.Reader.Requests
import Lisplet.Proofs.Reader.ScanErrors
import Lisplet.Proofs.Session.Steps
import Lisplet.Proofs.Command.Agreement
import Lisplet.Proofs.Expr.Flatten
import Lisplet.Proofs.Eval.Flatten
import Lisplet.Proofs.Session.Flatten
import Lisplet.Proofs.Eval.Truthful
import Lisplet.Proofs.Session.Truthful
import Lisplet.Proofs.Session.Sinks
import Lisplet.Proofs.Object.Entries
import Lisplet.Proofs.Session.Capture
import Lisplet.Proofs.Session.Literal
import Lisplet.Proofs.Session.Declaration
import Lisplet.Proofs.Reader.Blame
import Lisplet.Proofs.Reader.Progress
import Lisplet.Proofs.Eval.Arithmetic
import Lisplet.Proofs.Eval.Comparison
import Lisplet.Proofs.Text.Line
import Lisplet.Proofs.Token.Integer
import Lisplet.Proofs.Object.Delegation
import Lisplet.Proofs.Command.Listing
