import Lisplet.Eval.Fault
import Lisplet.Reader.Error
import Lisplet.Report.Basic
/-!
The reports of reading errors and of run-time errors.
-/
namespace Lisplet

open Colour

def ReadError.report (e : ReadError) : Report where
  code := e.fault.code
  message := "Could not read the program"
  label := red.paint e.fault.summary
  line := e.line

variable {ν : Type}

/-- What the program attempted. -/
def Fault.attempt : Fault → String
  | .unboundVariable _ => "Attempted to assign a variable that has not been declared"
  | .alreadyDeclared _ => "Attempted to declare a variable that is already visible"
  | .arityMismatch _ _ _ => "Attempted to call a function with the wrong number of arguments"
  | .invalidCallee _ => "Attempted to call a value that is not a function"
  | .invalidReceiver _ => "Attempted to access a field of a value that is not an object"
  | .nonNumerics _ _ => "Expected both operands to be integers"
  | .nonComparable _ _ => "Expected two integers or two strings"
  | .divisionByZero => "Attempted to divide by zero"
  | .returnOutsideFunction => "Attempted to return outside of a function"

/-- Why the attempt could not succeed. -/
def Fault.label (h : Heap ν) : Fault → String
  | .unboundVariable name => red.paint name ++ " has no visible binding."
  | .alreadyDeclared name => red.paint name ++ " is already declared."
  | .arityMismatch name expected actual =>
    yellow.paint name ++ " has " ++ cyan.paint (Numeral.ofNat expected) ++
      " parameters but got " ++ red.paint (Numeral.ofNat actual) ++ " arguments instead."
  | .invalidCallee v => red.paint (h.typedText v) ++ " is not callable."
  | .invalidReceiver v => red.paint (h.typedText v) ++ " has no fields."
  | .nonNumerics a b =>
    "One or both of " ++ red.paint (h.typedText a) ++ " and " ++ red.paint (h.typedText b) ++
      " is not an integer"
  | .nonComparable a b =>
    red.paint (h.typedText a) ++ " and " ++ red.paint (h.typedText b) ++ " can not be ordered"
  | .divisionByZero => "The divisor is zero."
  | .returnOutsideFunction => "There is no function to return from."

def EvalError.report (h : Heap ν) (e : EvalError) : Report where
  code := e.fault.code
  message := e.fault.attempt
  label := e.fault.label h
  line := e.line

end Lisplet
