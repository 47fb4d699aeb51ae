import Lisplet.Proofs.Eval.Abrupt
import Lisplet.Proofs.Session.Invariant
/-!
What a declaration declares. Whether a name counts as declared in a scope is asked of its value there,
not of a slot: it does unless the value is `undefined`. A declaration that completes has set the name
in the scope, and so it has declared it unless the value was `undefined`. In that case nothing is
declared, and the name can be declared once more but not assigned to (`declares_unless_undefined`).
-/
namespace Lisplet

variable {ν σ : Type}

/-- What an object owns hides what it would have from its parent. -/
theorem Heap.lookup?_of_own? {h : Heap ν} {name : String} {r : Ref} {v : Value}
    (own : h.own? name r = some v) : h.lookup? r name = some v := by
  obtain ⟨o, ho, hv⟩ := Option.bind_eq_some_iff.mp own
  simp only [lookup?, lookupWithin, ho, hv]

/-- What is wrong with an assignment that is refused. -/
def AssignMode.complaint (name : String) : AssignMode → Fault
  | .declare => .alreadyDeclared name
  | .update => .unboundVariable name

namespace Eval

open Lisplet.Action

section
variable (go : Ref → Expr → Action ν σ Value) (scope : Ref) (name : String) (value : Expr)

/-- Evaluate the value and set the name in the scope. -/
def store : Action ν σ Value := do
  let v ← go scope value
  register scope name v
  pure .undefined

/-- A name without a value is there to be declared, and any other to be assigned to. -/
theorem run_evalAssign {w : World ν σ} {known : Value}
    (found : w.heap.lookup? scope name = some known) (line : Nat) (mode : AssignMode) :
    evalAssign go scope line mode name value w =
      if mode = .declare ↔ known = .undefined then store go scope name value w
      else (.error (.failed ⟨mode.complaint name, line⟩), w) := by
  refine (run_bind_ok (run_lookup found) _).trans ?_
  cases mode <;> by_cases undefined : known = .undefined <;>
    simp [undefined, Value.isUndefined, store, AssignMode.complaint, fail]

/-- To store a value comes to what the value comes to. -/
theorem outcome_store {w : World ν σ}
    (here : scope.index < (go scope value w).2.heap.objects.size) :
    (store go scope name value w).1 = (go scope value w).1.map fun _ => .undefined := by
  rcases result : go scope value w with ⟨_ | v, w'⟩
  · rw [store, run_bind_error result]
    rfl
  · rw [result] at here
    rw [store, run_bind_ok result, run_bind_ok (run_register here name v)]
    rfl

end

variable [Sink σ]

/-- In the scope the name counts as declared: it is not declared again, and to assign to it comes to
what the value comes to. -/
structure Declared (scope : Ref) (name : String) (w : World Builtin σ) : Prop where
  declare : ∀ depth line value, evaluate (depth + 1) scope (.assign line .declare name value) w =
    (.error (.failed ⟨.alreadyDeclared name, line⟩), w)
  update : ∀ depth line value, (evaluate (depth + 1) scope (.assign line .update name value) w).1 =
    (evaluate depth scope value w).1.map fun _ => .undefined

/-- In the scope the name does not count as declared: it is not assigned to, and to declare it comes to
what the value comes to. -/
structure Undeclared (scope : Ref) (name : String) (w : World Builtin σ) : Prop where
  declare : ∀ depth line value, (evaluate (depth + 1) scope (.assign line .declare name value) w).1 =
    (evaluate depth scope value w).1.map fun _ => .undefined
  update : ∀ depth line value, evaluate (depth + 1) scope (.assign line .update name value) w =
    (.error (.failed ⟨.unboundVariable name, line⟩), w)

theorem run_assign_refused {w : World Builtin σ} {scope : Ref} {name : String} {known : Value}
    (found : w.heap.lookup? scope name = some known) {mode : AssignMode}
    (misfits : ¬ (mode = .declare ↔ known = .undefined)) (depth line : Nat) (value : Expr) :
    evaluate (depth + 1) scope (.assign line mode name value) w =
      (.error (.failed ⟨mode.complaint name, line⟩), w) :=
  (run_evalAssign (evaluate depth) scope name value found line mode).trans (if_neg misfits)

end Eval

section
variable [Sink σ]

namespace Session.Visited

variable {s : Session σ} (visited : s.Visited) {scope : Ref}
  (isScope : s.world.heap.IsScope scope) {name : String} {known : Value}
  (found : s.world.heap.lookup? scope name = some known)
include visited isScope found

/-- An assignment of the kind that fits what is known comes to what the value comes to. -/
theorem outcome_assign {mode : AssignMode} (fits : mode = .declare ↔ known = .undefined)
    (depth line : Nat) (value : Expr) :
    (Eval.evaluate (depth + 1) scope (.assign line mode name value) s.world).1 =
      (Eval.evaluate depth scope value s.world).1.map fun _ => .undefined := by
  have run := Eval.run_evalAssign (Eval.evaluate depth) scope name value found line mode
  rw [if_pos fits] at run
  have safe := visited.sound.safe_evaluate isScope depth value
  have here := Nat.lt_of_lt_of_le isScope.here safe.run.grows.size_le
  exact (congrArg Prod.fst run).trans (Eval.outcome_store _ scope name value here)

theorem declared (defined : known ≠ .undefined) : Eval.Declared scope name s.world := by
  constructor
  · exact Eval.run_assign_refused found (by simp [defined])
  · exact outcome_assign visited isScope found (by simp [defined])

theorem undeclared (undefined : known = .undefined) : Eval.Undeclared scope name s.world := by
  constructor
  · exact outcome_assign visited isScope found (by simp [undefined])
  · exact Eval.run_assign_refused found (by simp [undefined])

end Session.Visited

/-- A declaration that completes has set the name in its scope to the value, and this declares the name
if the value is not `undefined`. If it is, then the name is still undeclared. -/
theorem declares_unless_undefined {s : Session σ} (visited : s.Visited) {scope : Ref}
    (isScope : s.world.heap.IsScope scope) {depth line : Nat} {name : String} {value : Expr}
    {result : Value} {w : World Builtin σ}
    (completes : Eval.evaluate (depth + 1) scope (.assign line .declare name value) s.world =
      (.ok result, w)) :
    ∃ v w₁, Eval.evaluate depth scope value s.world = (.ok v, w₁) ∧
      w.heap.own? name scope = some v ∧
      (v ≠ .undefined → Eval.Declared scope name w) ∧
      (v = .undefined → Eval.Undeclared scope name w) := by
  obtain ⟨known, found, -⟩ := visited.sound.lookup? isScope.here trivial name
  have run := Eval.run_evalAssign (Eval.evaluate depth) scope name value found line .declare
  have stored : Eval.store (Eval.evaluate depth) scope name value s.world = (.ok result, w) := by
    by_cases fits : AssignMode.declare = .declare ↔ known = .undefined
    · rw [if_pos fits] at run
      exact run.symm.trans completes
    · rw [if_neg fits] at run
      cases run.symm.trans completes
  obtain ⟨v, w₁, evaluated, rest⟩ := Action.exists_of_run_bind stored
  have later : Session.Visited { s with world := w } := by
    have next := visited.evaluate (depth + 1) scope (.assign line .declare name value) isScope
    rwa [completes] at next
  have grown := (visited.sound.safe_evaluate isScope depth value).run.grows
  rw [evaluated] at grown
  have here := Nat.lt_of_lt_of_le isScope.here grown.size_le
  rw [Action.run_bind_ok (Eval.run_register here name v)] at rest
  cases rest
  have own := Heap.own?_register_same here name v
  have isScope' := (isScope.mono grown).mono (w₁.heap.grows_register scope name v)
  have seen := Heap.lookup?_of_own? own
  exact ⟨v, w₁, evaluated, own, later.declared isScope' seen, later.undeclared isScope' seen⟩

end

/-- In a new session `a` is declared by the value 1, and `b` is not by the value `undefined`. -/
theorem declares_unless_undefined_both : ∃ w w' : World Builtin Transcript,
    Eval.evaluate 9 ⟨0⟩ (.assign 1 .declare "a" (.literal 1 (.integer 1)))
      (Session.start Transcript.empty).world = (.ok .undefined, w) ∧ Eval.Declared ⟨0⟩ "a" w ∧
    Eval.evaluate 9 ⟨0⟩ (.assign 1 .declare "b" (.literal 1 .undefined))
      (Session.start Transcript.empty).world = (.ok .undefined, w') ∧
      Eval.Undeclared ⟨0⟩ "b" w' := by
  have visited := (Session.Reachable.start Transcript.empty).visited
  have isScope : (Session.start Transcript.empty).world.heap.IsScope ⟨0⟩ := ⟨_, rfl, rfl⟩
  obtain ⟨w, first⟩ : ∃ w, Eval.evaluate 9 ⟨0⟩ (.assign 1 .declare "a" (.literal 1 (.integer 1)))
    (Session.start Transcript.empty).world = (.ok .undefined, w) := ⟨_, rfl⟩
  obtain ⟨w', second⟩ : ∃ w', Eval.evaluate 9 ⟨0⟩ (.assign 1 .declare "b" (.literal 1 .undefined))
    (Session.start Transcript.empty).world = (.ok .undefined, w') := ⟨_, rfl⟩
  obtain ⟨v, w₁, value, -, declared, -⟩ := declares_unless_undefined visited isScope first
  obtain ⟨v', w₁', value', -, -, undeclared⟩ := declares_unless_undefined visited isScope second
  refine ⟨w, w', first, declared ?_, second, undeclared ?_⟩
  · cases value
    decide
  · cases value'
    rfl

/-- After `a` has been declared to be `undefined` it does not count as declared: it can be declared
again, and it cannot be assigned to. -/
theorem undefined_declared_twice : ∃ w : World Builtin Transcript,
    Eval.evaluate 9 ⟨0⟩ (.assign 1 .declare "a" (.literal 1 .undefined))
      (Session.start Transcript.empty).world = (.ok .undefined, w) ∧
    w.heap.own? "a" ⟨0⟩ = some .undefined ∧ ¬ Eval.Declared ⟨0⟩ "a" w ∧
    (Eval.evaluate 9 ⟨0⟩ (.assign 2 .declare "a" (.literal 2 (.integer 2))) w).1 = .ok .undefined ∧
    (Eval.evaluate 9 ⟨0⟩ (.assign 2 .update "a" (.literal 2 (.integer 2))) w).1 =
      .error (.failed ⟨.unboundVariable "a", 2⟩) := by
  refine ⟨_, rfl, rfl, fun declared => ?_, rfl, rfl⟩
  cases declared.declare 8 2 (.literal 2 (.integer 2))

end Lisplet
