import Lisplet.Expr.Keyword
import Lisplet.Token.Basic
/-!
What can be wrong with the text of a program: a token of the wrong sort, a form with the wrong
operands, or a piece of text that is no token at all.
-/
namespace Lisplet

/-- What is wrong with the operands of a special form. -/
inductive Malformation where
  | missingNameAndValue
  | missingValue
  | missingConditionAndBranch
  | missingBranch
  | tooManyOperands
  deriving DecidableEq, Repr

def Malformation.reason : Malformation → String
  | .missingNameAndValue => "expected a name and a value"
  | .missingValue => "expected a value"
  | .missingConditionAndBranch => "expected a condition and a branch"
  | .missingBranch => "expected a branch"
  | .tooManyOperands => "too many operands"

inductive ReadFault where
  | unexpectedToken (actual expected : TokenKind)
  | nonName (actual : TokenKind)
  | nonExpression (actual : TokenKind)
  | unexpectedEof
  | emptyForm
  | malformedForm (keyword : Keyword) (malformation : Malformation)
  | duplicateProperty (name : String)
  | scan (error : ScanError)
  deriving DecidableEq, Repr

structure ReadError where
  fault : ReadFault
  line : Nat
  deriving DecidableEq, Repr

namespace ReadFault

def message : ReadFault → String
  | .unexpectedToken actual expected =>
    "Expected " ++ expected.describe ++ " but got " ++ actual.describe ++ "."
  | .nonName actual => "Expected a name but got " ++ actual.describe ++ "."
  | .nonExpression actual => "Expected an expression but got " ++ actual.describe ++ "."
  | .unexpectedEof => "Expected a non-EOF token."
  | .emptyForm => "Encountered an empty form `()`."
  | .malformedForm keyword malformation =>
    "Malformed `" ++ keyword.word ++ "` form: " ++ malformation.reason ++ "."
  | .duplicateProperty name => "Property `" ++ name ++ "` is initialized more than once."
  | .scan error => "Encountered a lexer error " ++ error.message ++ "."

/-- The code under which a fault is reported. -/
def code : ReadFault → String
  | .unexpectedToken _ _ => "PA001"
  | .nonName _ => "PA002"
  | .nonExpression _ => "PA003"
  | .unexpectedEof => "PA004"
  | .emptyForm => "PA005"
  | .malformedForm _ _ => "PA006"
  | .duplicateProperty _ => "PA007"
  | .scan _ => "LX001"

/-- The wording of plain error lines and of reports: a fault in the text of a token speaks for
itself. -/
def summary : ReadFault → String
  | .scan error => error.fault.message
  | fault => fault.message

def dump : ReadFault → Dump
  | .unexpectedToken actual expected =>
    .record "UnexpectedToken" [("actual", actual.dump), ("expected", expected.dump)]
  | .nonName actual => .tuple "NonName" [actual.dump]
  | .nonExpression actual => .tuple "NonExpression" [actual.dump]
  | .unexpectedEof => .text "UnexpectedEof"
  | .emptyForm => .text "EmptyForm"
  | .malformedForm keyword malformation =>
    .record "MalformedForm" [("form", .quoted keyword.word),
      ("reason", .quoted malformation.reason)]
  | .duplicateProperty name => .tuple "DuplicateProperty" [.quoted name]
  | .scan error => .tuple "LexicalError" [error.dump]

end ReadFault

namespace ReadError

def message (e : ReadError) : String := atLine e.line e.fault.message

/-- The error as a plain line. -/
def plain (e : ReadError) : String := atLine e.line ("Error: " ++ e.fault.summary)

/-- The messages of the error's causes, outermost first. -/
def causes (e : ReadError) : List String :=
  e.fault.message :: match e.fault with
    | .scan error => error.message :: error.causes
    | _ => []

def dump (e : ReadError) : Dump :=
  .record "ParserError" [("kind", e.fault.dump), ("line", .nat e.line)]

/-- An error of the scanner, as the reader passes it on. -/
def ofScan (e : ScanError) : ReadError := ⟨.scan e, e.line⟩

end ReadError
end Lisplet
