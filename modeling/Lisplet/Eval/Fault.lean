import Lisplet.Object.Text
/-!
What can go wrong when a program runs. The texts show values, so they need the heap as it was left.
-/
namespace Lisplet

inductive Fault where
  | unboundVariable (name : String)
  | alreadyDeclared (name : String)
  | arityMismatch (name : String) (expected actual : Nat)
  | invalidCallee (callee : Value)
  | invalidReceiver (receiver : Value)
  | nonNumerics (lhs rhs : Value)
  | nonComparable (lhs rhs : Value)
  | divisionByZero
  | returnOutsideFunction
  deriving DecidableEq, Repr

structure EvalError where
  fault : Fault
  line : Nat
  deriving DecidableEq, Repr

variable {ν : Type}

namespace Fault

/-- The code under which a fault is reported. -/
def code : Fault → String
  | .unboundVariable _ => "RT001"
  | .alreadyDeclared _ => "RT002"
  | .arityMismatch _ _ _ => "RT003"
  | .invalidCallee _ => "RT004"
  | .invalidReceiver _ => "RT005"
  | .nonNumerics _ _ => "RT006"
  | .nonComparable _ _ => "RT007"
  | .divisionByZero => "RT008"
  | .returnOutsideFunction => "RT009"

def message (h : Heap ν) : Fault → String
  | .unboundVariable name => "no variable " ++ name ++ " defined"
  | .alreadyDeclared name => "variable " ++ name ++ " already defined"
  | .arityMismatch name expected actual =>
    "wrong number of arguments for " ++ name ++ ": expected " ++ Numeral.ofNat expected ++
      " but got " ++ Numeral.ofNat actual
  | .invalidCallee v => "type error " ++ h.text v ++ " is not a function"
  | .invalidReceiver v => "type error " ++ h.text v ++ " is not an object"
  | .nonNumerics a b => "type error [" ++ h.text a ++ ", " ++ h.text b ++ "] are not both integers"
  | .nonComparable a b => "type error [" ++ h.text a ++ ", " ++ h.text b ++ "] can not be ordered"
  | .divisionByZero => "division by zero"
  | .returnOutsideFunction => "return outside of a function"

def dump (h : Heap ν) : Fault → Dump
  | .unboundVariable name => .tuple "UnboundVariable" [.quoted name]
  | .alreadyDeclared name => .tuple "AlreadyDeclared" [.quoted name]
  | .arityMismatch name expected actual =>
    .record "ArityMismatch" [("name", .quoted name), ("expected", .nat expected),
      ("actual", .nat actual)]
  | .invalidCallee v => .tuple "InvalidCallee" [h.dump v]
  | .invalidReceiver v => .tuple "InvalidReceiver" [h.dump v]
  | .nonNumerics a b => .tuple "NonNumerics" [h.dump a, h.dump b]
  | .nonComparable a b => .tuple "NonComparable" [h.dump a, h.dump b]
  | .divisionByZero => .text "DivisionByZero"
  | .returnOutsideFunction => .text "ReturnOutsideFunction"

end Fault

namespace EvalError

def message (h : Heap ν) (e : EvalError) : String := atLine e.line (e.fault.message h)

/-- The error as a plain line. -/
def plain (h : Heap ν) (e : EvalError) : String :=
  "(" ++ Numeral.ofNat e.line ++ ") " ++ e.fault.message h

end EvalError
end Lisplet
