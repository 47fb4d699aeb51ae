import Lisplet.Proofs.Eval.Truthful
import Lisplet.Proofs.Session.Invariant
/-!
Run-time errors tell the truth, in every session that can be reached and whatever is evaluated in it
(`errors_truthful`). A session remembers nothing of its past but what is in its heap, and a function in
the heap may have been made from any form that was ever evaluated. So the forms are listed beside the
session (`Ran`).
-/
namespace Lisplet

variable {ν σ : Type}

/-- The expression stands in one of these forms. -/
def Expr.StandsIn (forms : List Expr) (n : Expr) : Prop := ∃ f ∈ forms, n ∈ f.nodes

theorem Heap.MadeFrom.addNatives {source : Expr → Prop} {h : Heap ν} (made : h.MadeFrom source)
    (scope : Ref) (natives : List (String × ν)) : (h.addNatives scope natives).MadeFrom source := by
  induction natives generalizing h with
  | nil => exact made
  | cons entry rest ih =>
    have created := made.alloc (o := { kind := .function entry.1 (.native entry.2) }) (by simp)
    exact ih (created.register scope entry.1 _)

/-- What the evaluation of a form after others draws on. -/
def Origin.after (forms : List Expr) (e : Expr) : Origin where
  form := e
  source := Expr.StandsIn (forms ++ [e])
  source_form := ⟨e, by simp, e.mem_nodes_self⟩
  source_part := fun ⟨f, hf, inside⟩ hp => ⟨f, hf, Expr.mem_nodes_of_part inside hp⟩

namespace Session

/-- At the start all functions are builtins. -/
theorem madeFrom_start (source : Expr → Prop) (sink : σ) :
    (start sink).world.heap.MadeFrom source := by
  have empty : (Heap.empty : Heap Builtin).MadeFrom source := by
    rintro name c ⟨r, o, ho, -⟩
    cases ho
  have global := empty.alloc (o := { kind := .environment }) (by simp)
  exact (global.register _ "global" _).addNatives _ Builtin.named

variable [Sink σ]

/-- The session is reached by evaluating these forms in this order, in any scopes that are there and
however that ends. -/
inductive Ran : List Expr → Session σ → Prop where
  | start (sink : σ) : Ran [] (start sink)
  | evaluate {es : List Expr} {s : Session σ} (before : Ran es s) (depth : Nat) (scope : Ref)
      (e : Expr) (isScope : s.world.heap.IsScope scope) :
      Ran (es ++ [e]) { s with world := (Eval.evaluate depth scope e s.world).2 }

theorem reachable_iff_ran {s : Session σ} : s.Reachable ↔ ∃ es, Ran es s := by
  constructor
  · intro reached
    induction reached with
    | start sink => exact ⟨[], .start sink⟩
    | evaluate _ depth scope e isScope ih =>
      obtain ⟨es, ran⟩ := ih
      exact ⟨es ++ [e], ran.evaluate depth scope e isScope⟩
  · rintro ⟨es, ran⟩
    induction ran with
    | start sink => exact .start sink
    | evaluate _ depth scope e isScope ih => exact ih.evaluate depth scope e isScope

theorem evaluate_after {es : List Expr} {w : World Builtin σ}
    (made : w.heap.MadeFrom (Expr.StandsIn es)) (depth : Nat) (scope : Ref) (e : Expr) :
    (Origin.after es e).Honest w (Eval.evaluate depth scope e) := by
  refine Eval.evaluate_honest depth scope e w (made.mono ?_) (.inl e.mem_nodes_self)
  rintro n ⟨f, hf, inside⟩
  exact ⟨f, List.mem_append_left _ hf, inside⟩

/-- All functions in the heap were made from what has been evaluated. -/
theorem Ran.madeFrom {es : List Expr} {s : Session σ} (ran : Ran es s) :
    s.world.heap.MadeFrom (Expr.StandsIn es) := by
  induction ran with
  | start sink => exact madeFrom_start _ sink
  | evaluate _ depth scope e _ ih => exact (evaluate_after ih depth scope e).made

/-- Run-time errors tell the truth. In every session that can be reached, and so also after errors, what
the error of a failed evaluation says is so in the heap that is left. A value that is no function, no
object, no integer or nothing to be ordered is none. The number of arguments is a wrong one; it is
reported on the line of the expression that the function was made from, which has as many parameters
and the name, or it is that of a builtin of two operands and on the line of a call. And a name that is
unbound or declared already is that of an assignment of this sort on this line. Calls and assignments
stand in what was evaluated or in the body of a function in the heap. -/
theorem errors_truthful {s : Session σ} (reached : s.Reachable) :
    (∃ es, Ran es s) ∧
    ∀ es, Ran es s → ∀ depth e err, (s.evaluate depth e).1 = .error (.failed err) →
      err.Truthful (Expr.StandsIn (es ++ [e])) e (s.evaluate depth e).2.world.heap := by
  refine ⟨reachable_iff_ran.mp reached, fun es ran depth e err failed => ?_⟩
  have honest := evaluate_after ran.madeFrom depth s.global e
  simp only [evaluate] at failed ⊢
  rcases h : Eval.evaluate depth s.global e s.world with ⟨(v | error | _ | _) | v, w⟩ <;>
    rw [h] at failed <;> cases failed
  · trivial
  · have truthful := honest.truthful err
    rw [h] at truthful
    exact truthful rfl

/-- A function of one argument sets a name that is not bound. It is called with no argument and then
with one, from other lines: the errors are on the line that defines it and on that of the
assignment. -/
theorem errors_truthful_function : ∃ (s : Session Transcript) (body e₁ e₂ : Expr),
    s.Reachable ∧ e₁ = .call 4 (.access 4 "f") [] ∧
    e₂ = .call 5 (.access 5 "f") [.literal 5 (.string "a")] ∧
    (s.evaluate 9 e₁).1 = .error (.failed ⟨.arityMismatch "f" 1 0, 1⟩) ∧
    EvalError.Truthful (Expr.StandsIn [.function 1 (some "f") ["x"] body, e₁]) e₁
      (s.evaluate 9 e₁).2.world.heap ⟨.arityMismatch "f" 1 0, 1⟩ ∧
    (s.evaluate 9 e₂).1 = .error (.failed ⟨.unboundVariable "y", 2⟩) ∧
    ∃ value, (s.evaluate 9 e₂).2.world.heap.Site e₂ (.assign 2 .update "y" value) := by
  have started := Reachable.start Transcript.empty
  have ran := (Ran.start Transcript.empty).evaluate 9 (start Transcript.empty).global
    (.function 1 (some "f") ["x"] (.block 1 [.assign 2 .update "y" (.access 2 "x")]))
    started.sound.global
  obtain ⟨-, truthful⟩ := errors_truthful (reachable_iff_ran.mpr ⟨_, ran⟩)
  have unbound := truthful _ ran 9 (.call 5 (.access 5 "f") [.literal 5 (.string "a")])
    ⟨.unboundVariable "y", 2⟩ rfl
  exact ⟨_, _, _, _, reachable_iff_ran.mpr ⟨_, ran⟩, rfl, rfl, rfl, truthful _ ran 9 _ _ rfl, rfl,
    unbound⟩

end Session
end Lisplet
