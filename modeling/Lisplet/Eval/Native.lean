import Lisplet.Eval.Action
import Lisplet.Eval.Operator
/-!
Functions that are not written in the language. A native sees the call and the heap and answers
with a result, the heap it leaves and the texts it prints. The builtins are the natives that every
program starts with: `print` and the operators. They leave the heap alone.
-/
namespace Lisplet

/-- A call whose operands have been evaluated; `line` is where the call stands. -/
structure Invocation where
  function : Ref
  receiver : Value
  arguments : List Value
  line : Nat

/-- What a native answers. -/
structure Reply (ν : Type) where
  result : Except Ending Value
  heap : Heap ν
  printed : List String := []

class Native (ν : Type) where
  call : ν → Invocation → Heap ν → Reply ν

inductive Builtin where
  | print
  | operator (op : Operator)
  deriving DecidableEq, Repr

namespace Builtin

variable {ν : Type}

def name : Builtin → String
  | .print => "print"
  | .operator op => op.name

/-- The builtins in the order in which the global scope lists them. -/
def all : List Builtin := .print :: Operator.all.map .operator

/-- How many arguments the builtin takes; `none` if it takes any number of them. -/
def arity? : Builtin → Option Nat
  | .print => none
  | .operator _ => some 2

/-- The result of an operator on the first two arguments. -/
def operate (op : Operator) (line : Nat) (arguments : List Value) : Except Ending Value :=
  match arguments[0]?, arguments[1]? with
  | some a, some b => (op.apply a b).mapError fun fault => .failed ⟨fault, line⟩
  | _, _ => .error (.stuck .missingOperand)

/-- What a builtin does with arguments that have been counted. `print` puts them on one line, a blank
between them. -/
def perform (b : Builtin) (inv : Invocation) (h : Heap ν) : Reply ν :=
  match b with
  | .print =>
    match inv.arguments.mapM h.text? with
    | some texts => { result := .ok .undefined, heap := h, printed := [" ".intercalate texts] }
    | none => { result := .error (.stuck .dangling), heap := h }
  | .operator op => { result := operate op inv.line inv.arguments, heap := h }

/-- What is wrong with the number of arguments. -/
def miscount? (b : Builtin) (arguments : List Value) : Option Fault :=
  b.arity?.bind fun expected =>
    if arguments.length = expected then none
    else some (.arityMismatch b.name expected arguments.length)

/-- Call a builtin: its arguments are counted first. What it reports is on the line of the call. -/
def call (b : Builtin) (inv : Invocation) (h : Heap ν) : Reply ν :=
  match b.miscount? inv.arguments with
  | some fault => { result := .error (.failed ⟨fault, inv.line⟩), heap := h }
  | none => b.perform inv h

instance : Native Builtin := ⟨call⟩

end Builtin
end Lisplet
