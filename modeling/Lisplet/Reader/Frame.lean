import Lisplet.Reader.Error
/-!
Open forms. While a form is being read, its frame says what has been read of it and so what may
come next. Where the next thing is an operand, the frame is a hole, and an operand that is a form
itself is read while the hole waits for it. `Frame.see` is the whole grammar: what each frame makes
of each token.
-/
namespace Lisplet

/-- What the operands of a form are collected for, where it takes any number of them. -/
inductive Collection where
  | block
  | arguments (callee : Expr)
  | body (name : Option String) (parameters : List String)
  | methodArguments (receiver : Expr) (name : String)

/-- The expression that the collected operands make. -/
def Collection.build (line : Nat) (operands : List Expr) : Collection → Expr
  | .block => .block line operands
  | .arguments callee => .call line callee operands
  | .body name parameters => .function line name parameters (.block line operands)
  | .methodArguments receiver name => .method line receiver name operands

/-- What a form does with a member of an object. -/
inductive MemberUse where
  | read
  | write
  | invoke
  deriving DecidableEq, Repr

/-- A place in an open form where an operand is due. Each holds the form's line and what has been
read of the form; lists are held last item first. -/
inductive Hole where
  /-- Just after the opening parenthesis: a callee, unless a keyword comes. -/
  | callee (line : Nat)
  | operands (line : Nat) (collection : Collection) (held : List Expr)
  | assigned (line : Nat) (mode : AssignMode) (name : String)
  | returned (line : Nat)
  | condition (line : Nat)
  | thenBranch (line : Nat) (condition : Expr)
  | elseBranch (line : Nat) (condition thenBranch : Expr)
  | property (line : Nat) (held : List (String × Expr)) (name : String)
  | receiver (line : Nat) (use : MemberUse)
  | member (line : Nat) (receiver : Expr) (name : String)

/-- The innermost open form. -/
inductive Frame where
  | operand (hole : Hole)
  | assignedName (line : Nat) (mode : AssignMode)
  | functionHead (line : Nat)
  | parametersStart (line : Nat) (name : String)
  | parameters (line : Nat) (name : Option String) (held : List String)
  | properties (line : Nat) (held : List (String × Expr))
  /-- After the parenthesis, on `start`, that opens a property. -/
  | propertyName (line : Nat) (held : List (String × Expr)) (start : Nat)
  | propertyEnd (line : Nat) (held : List (String × Expr)) (name : String) (value : Expr)
  | memberName (line : Nat) (use : MemberUse) (receiver : Expr)
  /-- All operands are there; only the closing parenthesis is due. -/
  | complete (keyword : Keyword) (whole : Expr)

/-- What a frame makes of a token. -/
inductive Move where
  /-- Take the token; the form goes on. -/
  | shift (frame : Frame)
  /-- Take the token, which opens a form that will fill the hole. -/
  | descend (hole : Hole)
  /-- Take the token, which closes the form. -/
  | finish (whole : Expr)
  /-- Give up. The token is taken unless it is `kept` for whoever reads on. -/
  | refuse (error : ReadError) (kept : Bool)

/-- The expression that a single token is. -/
def Token.atom? (t : Token) : Option Expr :=
  match t.kind with
  | .integer v => some (.literal t.line (.integer v))
  | .string s => some (.literal t.line (.string s))
  | .symbol s =>
    if s = Literal.undefinedWord then some (.literal t.line .undefined)
    else some (.access t.line s)
  | .leftParen | .rightParen | .eof => none

namespace Hole

/-- The frame after the operand has been read. -/
def fill (e : Expr) : Hole → Frame
  | .callee line => .operand (.operands line (.arguments e) [])
  | .operands line collection held => .operand (.operands line collection (e :: held))
  | .assigned line mode name => .complete (.assign mode) (.assign line mode name e)
  | .returned line => .complete .leave (.leave line e)
  | .condition line => .operand (.thenBranch line e)
  | .thenBranch line test => .operand (.elseBranch line test e)
  | .elseBranch line test yes => .complete .conditional (.conditional line test yes e)
  | .property line held name => .propertyEnd line held name e
  | .receiver line use => .memberName line use e
  | .member line target name => .complete .setField (.setField line target name e)

/-- What a closing parenthesis means in place of the operand: the end of a form that needs none, a
fault of the form, or, where it is `none`, just a token that starts no expression. -/
def close : Hole → Option Move
  | .callee line => some (.refuse ⟨.emptyForm, line⟩ true)
  | .operands line collection held => some (.finish (collection.build line held.reverse))
  | .assigned line mode _ => some (.refuse ⟨.malformedForm (.assign mode) .missingValue, line⟩ true)
  | .returned line => some (.finish (.leave line (.literal line .undefined)))
  | .condition line =>
    some (.refuse ⟨.malformedForm .conditional .missingConditionAndBranch, line⟩ true)
  | .thenBranch line _ => some (.refuse ⟨.malformedForm .conditional .missingBranch, line⟩ true)
  | .elseBranch line test yes => some (.finish (.conditional line test yes (.block line [])))
  | .property .. | .receiver .. | .member .. => none

end Hole

namespace Frame

/-- The frame of a special form after its keyword. -/
def ofKeyword (line : Nat) : Keyword → Frame
  | .block => .operand (.operands line .block [])
  | .assign mode => .assignedName line mode
  | .function => .functionHead line
  | .leave => .operand (.returned line)
  | .conditional => .operand (.condition line)
  | .object => .properties line []
  | .field => .operand (.receiver line .read)
  | .setField => .operand (.receiver line .write)
  | .method => .operand (.receiver line .invoke)

/-- The frame of a special form, if the token is a keyword and stands at the head of a form. -/
def special? : Hole → TokenKind → Option Frame
  | .callee line, .symbol s => (Keyword.ofWord? s).map (ofKeyword line)
  | _, _ => none

/-- The frame after the name of the member. -/
def ofMember (line : Nat) (receiver : Expr) (name : String) : MemberUse → Frame
  | .read => .complete .field (.field line receiver name)
  | .write => .operand (.member line receiver name)
  | .invoke => .operand (.operands line (.methodArguments receiver name) [])

/-- Whether the frame only looks at the next token to find out whether the form goes on. A frame
that looks leaves a faulty piece of text unread; any other one consumes it. -/
def looks : Frame → Bool
  | .operand hole => hole.close.isSome
  | .assignedName .. | .functionHead .. | .parameters .. | .properties .. => true
  | .parametersStart .. | .propertyName .. | .propertyEnd .. | .memberName .. | .complete .. =>
    false

/-- What is wrong if the text ends here. -/
def faultAtEnd : Frame → ReadFault
  | .functionHead .. | .parametersStart .. | .properties .. => .unexpectedToken .eof .leftParen
  | _ => .unexpectedEof

/-- Give up on a token that is not of the sort that is due, and consume it. -/
def refuseToken (t : Token) (fault : TokenKind → ReadFault) : Move :=
  .refuse ⟨fault t.kind, t.line⟩ false

/-- Take a token that should be a name. -/
def takeName (t : Token) (next : String → Move) : Move :=
  match t.kind with
  | .symbol name => next name
  | _ => refuseToken t .nonName

/-- What a hole makes of a token. -/
def seeOperand (hole : Hole) (t : Token) : Move :=
  match special? hole t.kind with
  | some frame => .shift frame
  | none =>
    match t.atom? with
    | some e => .shift (hole.fill e)
    | none =>
      if t.kind = .leftParen then .descend hole
      else hole.close.getD (refuseToken t .nonExpression)

/-- What the innermost open form makes of the next token, which is not the end of the text. -/
def see (t : Token) : Frame → Move
  | .operand hole => seeOperand hole t
  | .assignedName line mode =>
    if t.kind = .rightParen then
      .refuse ⟨.malformedForm (.assign mode) .missingNameAndValue, line⟩ true
    else takeName t fun name => .shift (.operand (.assigned line mode name))
  | .functionHead line =>
    match t.kind with
    | .symbol name => .shift (.parametersStart line name)
    | .leftParen => .shift (.parameters line none [])
    | _ => refuseToken t (.unexpectedToken · .leftParen)
  | .parametersStart line name =>
    if t.kind = .leftParen then .shift (.parameters line (some name) [])
    else refuseToken t (.unexpectedToken · .leftParen)
  | .parameters line name held =>
    if t.kind = .rightParen then .shift (.operand (.operands line (.body name held.reverse) []))
    else takeName t fun parameter => .shift (.parameters line name (parameter :: held))
  | .properties line held =>
    match t.kind with
    | .rightParen => .finish (.object line held.reverse)
    | .leftParen => .shift (.propertyName line held t.line)
    | _ => refuseToken t (.unexpectedToken · .leftParen)
  | .propertyName line held start =>
    takeName t fun name =>
      if held.any (·.1 == name) then .refuse ⟨.duplicateProperty name, start⟩ false
      else .shift (.operand (.property line held name))
  | .propertyEnd line held name value =>
    if t.kind = .rightParen then .shift (.properties line ((name, value) :: held))
    else refuseToken t fun _ => .malformedForm .object .tooManyOperands
  | .memberName line use receiver => takeName t fun name => .shift (ofMember line receiver name use)
  | .complete keyword whole =>
    if t.kind = .rightParen then .finish whole
    else refuseToken t fun _ => .malformedForm keyword .tooManyOperands

end Frame
end Lisplet
