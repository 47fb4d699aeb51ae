import Lisplet.Expr.Basic
import Lisplet.Token.Basic
/-!
Dumps of expressions, with everything the text of an expression leaves out: lines, the blocks of
function bodies, and the difference between the undefined literal and a name.
-/
namespace Lisplet

def Literal.dump : Literal → Dump
  | .undefined => .text "Undefined"
  | .integer v => .tuple "Integer" [.word v]
  | .string s => .tuple "String" [.quoted s]

namespace Expr

/-- A dumped expression of the given sort: the sort is named twice, around its fields. -/
def dumpNode (sort : String) (fields : List (String × Dump)) : Dump :=
  .tuple sort [.record sort fields]

mutual
def dump : Expr → Dump
  | .literal l v => dumpNode "Literal" [("value", v.dump), ("line", .nat l)]
  | .block l body => dumpNode "Block" [("instructions", .list (dumpAll body)), ("line", .nat l)]
  | .access l name => dumpNode "LocalVarAccess" [("name", .quoted name), ("line", .nat l)]
  | .assign l mode name value =>
    dumpNode "LocalVarAssignment" [("name", .quoted name), ("expr", dump value),
      ("declaration", .text (if mode = .declare then "true" else "false")), ("line", .nat l)]
  | .function l name parameters body =>
    dumpNode "Fun" [("name", name.elim (.text "None") fun n => .tuple "Some" [.quoted n]),
      ("parameters", .list (parameters.map .quoted)), ("body", dump body), ("line", .nat l)]
  | .call l callee arguments =>
    dumpNode "FunCall" [("qualifier", dump callee), ("arguments", .list (dumpAll arguments)),
      ("line", .nat l)]
  | .leave l value => dumpNode "Return" [("expr", dump value), ("line", .nat l)]
  | .conditional l condition thenBranch elseBranch =>
    dumpNode "If" [("condition", dump condition), ("true_branch", dump thenBranch),
      ("false_branch", dump elseBranch), ("line", .nat l)]
  | .object l properties =>
    dumpNode "New" [("initializers", .list (dumpProperties properties)), ("line", .nat l)]
  | .field l receiver name =>
    dumpNode "FieldAccess" [("receiver", dump receiver), ("name", .quoted name), ("line", .nat l)]
  | .setField l receiver name value =>
    dumpNode "FieldAssignment" [("receiver", dump receiver), ("name", .quoted name),
      ("expr", dump value), ("line", .nat l)]
  | .method l receiver name arguments =>
    dumpNode "MethodCall" [("receiver", dump receiver), ("name", .quoted name),
      ("arguments", .list (dumpAll arguments)), ("line", .nat l)]

def dumpAll : List Expr → List Dump
  | [] => []
  | e :: es => dump e :: dumpAll es

def dumpProperties : List (String × Expr) → List Dump
  | [] => []
  | (name, value) :: properties =>
    .tuple "" [.quoted name, dump value] :: dumpProperties properties
end

end Expr

def Script.dump (s : Script) : Dump :=
  .record "Script" [("body", .record "Block"
    [("instructions", .list (Expr.dumpAll s.forms)), ("line", .nat 1)])]

end Lisplet
