/-!
Programs. A script is a list of expressions, and every expression carries the number of the line on
which it begins, because run-time errors point there.
-/
namespace Lisplet

/-- A value that a program spells out. -/
inductive Literal where
  | undefined
  | integer (value : Int64)
  | string (value : String)
  deriving DecidableEq, Repr

/-- How an assignment treats its name: a declaration wants it new, an update wants it known. -/
inductive AssignMode where
  | declare
  | update
  deriving DecidableEq, Repr

inductive Expr where
  | literal (line : Nat) (value : Literal)
  | block (line : Nat) (body : List Expr)
  | access (line : Nat) (name : String)
  | assign (line : Nat) (mode : AssignMode) (name : String) (value : Expr)
  | function (line : Nat) (name : Option String) (parameters : List String) (body : Expr)
  | call (line : Nat) (callee : Expr) (arguments : List Expr)
  | leave (line : Nat) (value : Expr)
  | conditional (line : Nat) (condition thenBranch elseBranch : Expr)
  | object (line : Nat) (properties : List (String × Expr))
  | field (line : Nat) (receiver : Expr) (name : String)
  | setField (line : Nat) (receiver : Expr) (name : String) (value : Expr)
  | method (line : Nat) (receiver : Expr) (name : String) (arguments : List Expr)
  deriving Repr

namespace Expr

instance : Inhabited Expr := ⟨.literal 1 .undefined⟩

/-- The line on which the expression begins. -/
def line : Expr → Nat
  | .literal l _ | .block l _ | .access l _ | .assign l _ _ _ | .function l _ _ _ | .call l _ _
  | .leave l _ | .conditional l _ _ _ | .object l _ | .field l _ _ | .setField l _ _ _
  | .method l _ _ _ => l

end Expr

/-- A program: its expressions in order. The script as a whole begins on line 1. -/
structure Script where
  forms : List Expr
  deriving Repr

end Lisplet
