import Lisplet.Eval.Evaluator
/-!
Sessions. A session starts with a global scope that holds itself, under the name `global`, and the
natives; expressions are evaluated in it one after the other. What an expression changed before it
failed stays changed, and the session can go on.
-/
namespace Lisplet

namespace Heap

variable {ν : Type}

/-- Create a function for each native and set its name in the scope. -/
def addNatives (scope : Ref) : List (String × ν) → Heap ν → Heap ν
  | [], h => h
  | (name, native) :: rest, h =>
    let (r, h) := h.alloc { kind := .function name (.native native) }
    addNatives scope rest (h.register scope name (.object r))

/-- Create a global scope. -/
def addGlobal (natives : List (String × ν)) (h : Heap ν) : Ref × Heap ν :=
  let (r, h) := h.alloc { kind := .environment }
  (r, addNatives r natives (h.register r "global" (.object r)))

end Heap

/-- The natives of a program. -/
def Builtin.named : List (String × Builtin) := Builtin.all.map fun b => (b.name, b)

structure Session (σ : Type) where
  global : Ref
  world : World Builtin σ

namespace Session

variable {σ : Type} [Sink σ]

/-- A session in which nothing has been evaluated yet. -/
def start (sink : σ) : Session σ :=
  let (global, heap) := Heap.addGlobal Builtin.named Heap.empty
  ⟨global, ⟨heap, sink⟩⟩

/-- Outside of all functions there is nothing to return from. -/
def forbidReturn (line : Nat) : Except Ending Value → Except Ending Value
  | .error (.returned _) => .error (.failed ⟨.returnOutsideFunction, line⟩)
  | result => result

/-- Evaluate one expression in the global scope. -/
def evaluate (depth : Nat) (s : Session σ) (e : Expr) : Except Ending Value × Session σ :=
  let (result, world) := Eval.evaluate depth s.global e s.world
  (forbidReturn e.line result, { s with world })

/-- Evaluate the expressions in order until one fails. -/
def evaluateAll (depth : Nat) (s : Session σ) : List Expr → Except Ending Unit × Session σ
  | [] => (.ok (), s)
  | e :: es =>
    match evaluate depth s e with
    | (.ok _, s) => evaluateAll depth s es
    | (.error ending, s) => (.error ending, s)

/-- The properties of the global scope, without those that still have the value that they had when
the session started. -/
def bindings (s : Session σ) : List (String × Value) :=
  let own (s : Session σ) := ((s.world.heap.get? s.global).map (·.slots)).getD .empty
  let initial := own (start s.world.sink)
  (own s).entries.filter fun (name, v) => initial.get? name ≠ some v

end Session

/-- Run a script in a new session. -/
def Script.run {σ : Type} [Sink σ] (depth : Nat) (sink : σ) (script : Script) :
    Except Ending Unit × Session σ :=
  (Session.start sink).evaluateAll depth script.forms

end Lisplet
