import Lisplet.Eval.Fault
/-!
Operators: arithmetic, comparison and equality of values. Arithmetic is that of 64-bit words:
results wrap around, division truncates toward zero, and a remainder has the sign of the dividend.
Integers are ordered among themselves and so are texts, by code points; nothing else is ordered.
-/
namespace Lisplet

inductive Arithmetic where
  | add
  | subtract
  | multiply
  | divide
  | remainder
  deriving DecidableEq, Repr

inductive Comparison where
  | less
  | lessEqual
  | greater
  | greaterEqual
  deriving DecidableEq, Repr

namespace Arithmetic

def onWords : Arithmetic → Int64 → Int64 → Except Fault Int64
  | .add, a, b => .ok (a + b)
  | .subtract, a, b => .ok (a - b)
  | .multiply, a, b => .ok (a * b)
  | .divide, a, b => if b = 0 then .error .divisionByZero else .ok (a / b)
  | .remainder, a, b => if b = 0 then .error .divisionByZero else .ok (a % b)

def apply (op : Arithmetic) : Value → Value → Except Fault Value
  | .integer a, .integer b => (op.onWords a b).map .integer
  | a, b => .error (.nonNumerics a b)

end Arithmetic

def Value.compare : Value → Value → Except Fault Ordering
  | .integer a, .integer b => .ok (Ord.compare a b)
  | .string a, .string b => .ok (Ord.compare a b)
  | a, b => .error (.nonComparable a b)

namespace Comparison

def holds : Comparison → Ordering → Bool
  | .less, o => o == .lt
  | .lessEqual, o => o != .gt
  | .greater, o => o == .gt
  | .greaterEqual, o => o != .lt

def apply (op : Comparison) (a b : Value) : Except Fault Value :=
  (a.compare b).map fun o => .ofBool (op.holds o)

end Comparison

/-- A builtin function of two operands. -/
inductive Operator where
  | arithmetic (op : Arithmetic)
  | equality (negated : Bool)
  | comparison (op : Comparison)
  deriving DecidableEq, Repr

namespace Operator

def name : Operator → String
  | .arithmetic .add => "+"
  | .arithmetic .subtract => "-"
  | .arithmetic .multiply => "*"
  | .arithmetic .divide => "/"
  | .arithmetic .remainder => "%"
  | .equality false => "=="
  | .equality true => "!="
  | .comparison .less => "<"
  | .comparison .lessEqual => "<="
  | .comparison .greater => ">"
  | .comparison .greaterEqual => ">="

def apply (a b : Value) : Operator → Except Fault Value
  | .arithmetic op => op.apply a b
  | .equality negated => .ok (.ofBool ((a == b) != negated))
  | .comparison op => op.apply a b

/-- The operators in the order in which the global scope lists them. -/
def all : List Operator :=
  [.arithmetic .add, .arithmetic .subtract, .arithmetic .divide, .arithmetic .multiply,
    .arithmetic .remainder, .equality false, .equality true, .comparison .less,
    .comparison .lessEqual, .comparison .greater, .comparison .greaterEqual]

end Operator
end Lisplet
