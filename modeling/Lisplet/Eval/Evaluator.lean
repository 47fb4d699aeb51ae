import Lisplet.Eval.Native
/-!
The evaluator. Operands are evaluated from left to right, and each check is made as soon as what it
checks is there: a callee before its arguments, a name before the value it is to get. A function
remembers the scope it was defined in; a call runs the body in a new scope under that one, so that
the caller's names are not seen and its bindings not touched.

The definitions first say how one expression is evaluated, given how to evaluate its parts; the
evaluator closes this up to a nesting depth. A result is the same at every depth that reaches it.
-/
namespace Lisplet
namespace Eval

open Lisplet.Action

variable {ν σ : Type} [Native ν] [Sink σ]

/-- A value that is about to be called must be a function. -/
def expectFunction (v : Value) (line : Nat) : Action ν σ Ref :=
  match v with
  | .object r => do
    if (← kindOf r).isFunction then pure r else fail (.invalidCallee v) line
  | v => fail (.invalidCallee v) line

/-- A value whose member is wanted must be an object. -/
def expectObject (v : Value) (line : Nat) : Action ν σ Ref :=
  match v with
  | .object r => pure r
  | v => fail (.invalidReceiver v) line

/-- Set the parameters in the scope of a call. Of parameters of one name the last one counts. -/
def bindParameters (scope : Ref) : List String → List Value → Action ν σ Unit
  | [], [] => pure ()
  | p :: ps, v :: vs => do
    register scope p v
    bindParameters scope ps vs
  | _, _ => stop (.stuck .argumentCount)

/-- Call a native: take over its heap, and print what it prints. -/
def callNative (native : ν) (inv : Invocation) : Action ν σ Value := fun w =>
  let reply := Native.call native inv w.heap
  (reply.result, ⟨reply.heap, reply.printed.foldl Sink.writeln w.sink⟩)

section
variable (go : Ref → Expr → Action ν σ Value)

/-- Evaluate the expressions in order. -/
def evalAll (scope : Ref) : List Expr → Action ν σ (List Value)
  | [] => pure []
  | e :: es => do
    let v ← go scope e
    let vs ← evalAll scope es
    pure (v :: vs)

/-- Evaluate the properties of an object in order and set each at once. -/
def evalProperties (scope object : Ref) : List (String × Expr) → Action ν σ Unit
  | [] => pure ()
  | (name, e) :: properties => do
    let v ← go scope e
    register object name v
    evalProperties scope object properties

/-- Call a closure that goes by the given name. A wrong number of arguments is reported where the
function was defined. -/
def callClosure (name : String) (c : Closure) (inv : Invocation) : Action ν σ Value :=
  if inv.arguments.length = c.parameters.length then do
    let scope ← alloc { kind := .environment, parent := some c.scope }
    register scope "this" inv.receiver
    bindParameters scope c.parameters inv.arguments
    catchReturn (go scope c.body)
  else fail (.arityMismatch name c.parameters.length inv.arguments.length) c.line

/-- Call an object that has been found to be a function. -/
def apply (inv : Invocation) : Action ν σ Value := do
  match ← kindOf inv.function with
  | .function _ (.native native) => callNative native inv
  | .function name (.closure c) => callClosure go name c inv
  | _ => stop (.stuck .notFunction)

/-- Evaluate an assignment. A name counts as known if looking it up gives a value; whether it is
known is settled before the value is evaluated. The name is set in the scope itself. -/
def evalAssign (scope : Ref) (line : Nat) (mode : AssignMode) (name : String) (value : Expr) :
    Action ν σ Value := do
  let known ← lookup scope name
  match mode, known.isUndefined with
  | .update, true => fail (.unboundVariable name) line
  | .declare, false => fail (.alreadyDeclared name) line
  | _, _ => do
    let v ← go scope value
    register scope name v
    pure .undefined

/-- Create a function. If it has a name, the name is set in the scope. -/
def evalFunction (scope : Ref) (line : Nat) (name : Option String) (parameters : List String)
    (body : Expr) : Action ν σ Value := do
  let code := .closure { line, parameters, body, scope }
  let r ← alloc { kind := .function (name.getD "lambda") code }
  match name with
  | none => pure (.object r)
  | some n => do
    register scope n (.object r)
    pure (.object r)

/-- How an expression is evaluated, given how its parts are. -/
def step (scope : Ref) : Expr → Action ν σ Value
  | .literal _ v => pure (.ofLiteral v)
  | .block _ body => do
    let _ ← evalAll go scope body
    pure .undefined
  | .access _ name => lookup scope name
  | .assign line mode name value => evalAssign go scope line mode name value
  | .function line name parameters body => evalFunction scope line name parameters body
  | .call line callee arguments => do
    let f ← expectFunction (← go scope callee) line
    let vs ← evalAll go scope arguments
    apply go ⟨f, .undefined, vs, line⟩
  | .leave _ value => do
    let v ← go scope value
    stop (.returned v)
  | .conditional _ condition thenBranch elseBranch => do
    let v ← go scope condition
    if v.isTruthy then go scope thenBranch else go scope elseBranch
  | .object _ properties => do
    let r ← alloc { kind := .plain }
    evalProperties go scope r properties
    pure (.object r)
  | .field line receiver name => do
    let r ← expectObject (← go scope receiver) line
    lookup r name
  | .setField line receiver name value => do
    let r ← expectObject (← go scope receiver) line
    let v ← go scope value
    register r name v
    pure .undefined
  | .method line receiver name arguments => do
    let target ← go scope receiver
    let r ← expectObject target line
    let f ← expectFunction (← lookup r name) line
    let vs ← evalAll go scope arguments
    apply go ⟨f, target, vs, line⟩
end

/-- Evaluate an expression in a scope, at most `depth` levels deep. -/
def evaluate : Nat → Ref → Expr → Action ν σ Value
  | 0 => fun _ _ => stop .exhausted
  | depth + 1 => fun scope e => step (evaluate depth) scope e

/-- Call any object. -/
def invoke (depth : Nat) (inv : Invocation) : Action ν σ Value := do
  let _ ← expectFunction (.object inv.function) inv.line
  apply (evaluate depth) inv

end Eval
end Lisplet
