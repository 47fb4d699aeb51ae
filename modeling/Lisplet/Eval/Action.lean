import Lisplet.Eval.Fault
/-!
What evaluation does to the world. The world is the heap and the sink that printed texts go to; an
action may change both and either gives a value or ends early. Whatever the ending, the changes made
up to it stay (`run_bind_error`), and nothing of what would have come next is done.
-/
namespace Lisplet

/-- A place that printed texts go to. -/
class Sink (σ : Type) where
  writeln : σ → String → σ

/-- The printed texts one by one, in order. -/
structure Transcript where
  texts : Array String

namespace Transcript

def empty : Transcript := ⟨#[]⟩

instance : Sink Transcript := ⟨fun t text => ⟨t.texts.push text⟩⟩

end Transcript

/-- The printed texts as one, a line feed after each. -/
structure Buffer where
  data : String

namespace Buffer

def empty : Buffer := ⟨""⟩

instance : Sink Buffer := ⟨fun b text => ⟨b.data ++ text ++ "\n"⟩⟩

end Buffer

/-- What a well-kept heap rules out. -/
inductive Defect where
  /-- A reference names no object. -/
  | dangling
  /-- An object that was a function is none any more. -/
  | notFunction
  /-- Parameters and arguments that were counted do not pair off. -/
  | argumentCount
  /-- An operator was given fewer operands than it reads. -/
  | missingOperand
  deriving DecidableEq, Repr

/-- Why an action gives no value. -/
inductive Ending where
  /-- A `return` is on its way to the function it leaves. -/
  | returned (value : Value)
  | failed (error : EvalError)
  /-- The evaluation nests deeper than it was allowed to. -/
  | exhausted
  /-- The heap is not what evaluation keeps it to be. -/
  | stuck (defect : Defect)
  deriving DecidableEq, Repr

structure World (ν σ : Type) where
  heap : Heap ν
  sink : σ

/-- An action on the world with a result in `α`. -/
def Action (ν σ α : Type) : Type := World ν σ → Except Ending α × World ν σ

namespace Action

variable {ν σ α β : Type}

@[inline] protected def pure (a : α) : Action ν σ α := fun w => (.ok a, w)

@[inline] protected def bind (m : Action ν σ α) (f : α → Action ν σ β) : Action ν σ β := fun w =>
  match m w with
  | (.ok a, w') => f a w'
  | (.error e, w') => (.error e, w')

@[always_inline] instance : Monad (Action ν σ) where
  pure := Action.pure
  bind := Action.bind

/-- End early. -/
@[inline] def stop (e : Ending) : Action ν σ α := fun w => (.error e, w)

@[inline] def fail (fault : Fault) (line : Nat) : Action ν σ α := stop (.failed ⟨fault, line⟩)

/-- Create an object. -/
def alloc (o : Object ν) : Action ν σ Ref := fun w =>
  let (r, h) := w.heap.alloc o
  (.ok r, { w with heap := h })

/-- Look a name up, from the object along its parents. -/
def lookup (r : Ref) (name : String) : Action ν σ Value := fun w =>
  match w.heap.lookup? r name with
  | some v => (.ok v, w)
  | none => (.error (.stuck .dangling), w)

/-- The sort of an object. -/
def kindOf (r : Ref) : Action ν σ (Kind ν) := fun w =>
  match w.heap.get? r with
  | some o => (.ok o.kind, w)
  | none => (.error (.stuck .dangling), w)

/-- Set a property of an object. -/
def register (r : Ref) (name : String) (value : Value) : Action ν σ Unit := fun w =>
  if r.index < w.heap.objects.size then
    (.ok (), { w with heap := w.heap.register r name value })
  else (.error (.stuck .dangling), w)

/-- A `return` inside the action ends here and its value is the action's. -/
def catchReturn (m : Action ν σ Value) : Action ν σ Value := fun w =>
  match m w with
  | (.error (.returned v), w') => (.ok v, w')
  | result => result

@[simp] theorem run_pure (a : α) (w : World ν σ) : (pure a : Action ν σ α) w = (.ok a, w) := rfl

theorem run_bind (m : Action ν σ α) (f : α → Action ν σ β) (w : World ν σ) :
    (m >>= f) w = match m w with
      | (.ok a, w') => f a w'
      | (.error e, w') => (.error e, w') := rfl

theorem run_bind_ok {m : Action ν σ α} {w w' : World ν σ} {a : α} (h : m w = (.ok a, w'))
    (f : α → Action ν σ β) : (m >>= f) w = f a w' := by rw [run_bind, h]

theorem run_bind_error {m : Action ν σ α} {w w' : World ν σ} {e : Ending}
    (h : m w = (.error e, w')) (f : α → Action ν σ β) : (m >>= f) w = (.error e, w') := by
  rw [run_bind, h]

/-- What gives a value in the end has given one at every step. -/
theorem exists_of_run_bind {m : Action ν σ α} {f : α → Action ν σ β} {w w' : World ν σ} {b : β}
    (h : (m >>= f) w = (.ok b, w')) : ∃ a w₁, m w = (.ok a, w₁) ∧ f a w₁ = (.ok b, w') := by
  rcases hm : m w with ⟨_ | a, w₁⟩
  · rw [run_bind_error hm] at h
    cases h
  · exact ⟨a, w₁, rfl, (run_bind_ok hm f).symm.trans h⟩

@[simp] theorem run_stop (e : Ending) (w : World ν σ) :
    (stop e : Action ν σ α) w = (.error e, w) := rfl

end Action
end Lisplet
