import Lisplet.Proofs.Eval.Course
import Lisplet.Proofs.Session.Reach
/-!
How evaluations end in a session: with a value, a `return` or an error, unless they nest too deep.

They do not get stuck (`never_stuck`). Whatever could fail is written so that it ends the evaluation
as `stuck`: to follow a reference, to call what was found to be a function before its arguments were
evaluated, to pair off parameters and arguments that have been counted, to read the operands of an
operator. Only a `return` is ever caught, so one failure anywhere would show in the end.

And a `return` gets no further than the call that it is in (`return_stays_inside`).
-/
namespace Lisplet

variable {ν σ α : Type}

/-- What is left by a safe action is not stuck. -/
theorem Realm.Leaves.not_stuck {c : Realm} {h : Heap ν} {post : α → Prop}
    {result : Except Ending α} (leaves : c.Leaves h post result) (defect : Defect) :
    result ≠ .error (.stuck defect) := by
  rintro rfl
  exact leaves

namespace Session

open Realm

variable [Sink σ] {s : Session σ}

theorem Reachable.evaluate_not_stuck (reached : s.Reachable) (depth : Nat) {scope : Ref}
    (isScope : s.world.heap.IsScope scope) (e : Expr) (defect : Defect) :
    (Eval.evaluate depth scope e s.world).1 ≠ .error (.stuck defect) :=
  (reached.sound.safe_evaluate isScope depth e).leaves.not_stuck defect

/-- All values that name existing objects may be handed to a function, scopes among them. -/
theorem Reachable.invoke_not_stuck (reached : s.Reachable) (depth : Nat) {inv : Invocation}
    (has : ∀ v ∈ inv.roots, s.world.heap.Has v) (defect : Defect) :
    (Eval.invoke depth inv s.world).1 ≠ .error (.stuck defect) := by
  have sound : (lending s.global (fun _ => True) False).Sound s.world.heap :=
    reached.sound.lending _ False.elim
  have held : ∀ v ∈ inv.roots, (lending s.global (fun _ => True) False).Holds s.world.heap v :=
    fun v given => holds_lending (has v given) fun _ _ => trivial
  obtain ⟨function, operands⟩ := List.forall_mem_cons.mp held
  obtain ⟨receiver, arguments⟩ := List.forall_mem_cons.mp operands
  have safe := Eval.invoke_safe sound (Nat.zero_le _) function receiver arguments depth
  exact safe.2.not_stuck defect

theorem Reachable.session_not_stuck (reached : s.Reachable) (depth : Nat) (e : Expr)
    (defect : Defect) : (s.evaluate depth e).1 ≠ .error (.stuck defect) := by
  intro stuck
  simp only [Session.evaluate, forbidReturn] at stuck
  split at stuck
  · cases stuck
  · exact reached.evaluate_not_stuck depth reached.sound.global e defect stuck

theorem forbidReturn_ne_returned {line : Nat} {result : Except Ending Value} {v : Value} :
    forbidReturn line result ≠ .error (.returned v) := by
  rcases result with (_ | _ | _ | _) | _ <;> simp [forbidReturn]

/-- What ends a sequence of evaluations ends one of them. -/
theorem Reachable.exists_evaluate_of_error (reached : s.Reachable) {depth : Nat} {es : List Expr}
    {ending : Ending} (ended : (s.evaluateAll depth es).1 = .error ending) :
    ∃ s' : Session σ, s'.Reachable ∧ ∃ e, (s'.evaluate depth e).1 = .error ending := by
  induction es generalizing s with
  | nil => cases ended
  | cons e es ih =>
    have later := reached.next depth e
    rcases h : s.evaluate depth e with ⟨other | v, s'⟩
    · simp only [evaluateAll, h] at ended
      cases ended
      exact ⟨s, reached, e, by rw [h]⟩
    · rw [h] at later
      simp only [evaluateAll, h] at ended
      exact ih later ended

theorem Reachable.evaluateAll_not_stuck (reached : s.Reachable) (depth : Nat) (es : List Expr)
    (defect : Defect) : (s.evaluateAll depth es).1 ≠ .error (.stuck defect) := by
  intro stuck
  obtain ⟨s', reached', e, here⟩ := reached.exists_evaluate_of_error stuck
  exact reached'.session_not_stuck depth e defect here

/-- A sequence of evaluations that comes to its end ends well or fails. -/
theorem Reachable.evaluateAll_ends (reached : s.Reachable) {depth : Nat} {es : List Expr}
    (finished : (s.evaluateAll depth es).1 ≠ .error .exhausted) :
    (s.evaluateAll depth es).1 = .ok () ∨
    ∃ err, (s.evaluateAll depth es).1 = .error (.failed err) := by
  rcases h : (s.evaluateAll depth es).1 with ending | _
  · cases ending with
    | returned v =>
      obtain ⟨s', -, e, returned⟩ := reached.exists_evaluate_of_error h
      exact absurd returned forbidReturn_ne_returned
    | failed err => exact .inr ⟨err, rfl⟩
    | exhausted => exact absurd h finished
    | stuck defect => exact absurd h (reached.evaluateAll_not_stuck depth es defect)
  · exact .inl rfl

/-- Every value that names an existing object can be shown. -/
theorem Reachable.exists_text? (reached : s.Reachable) {v : Value} (has : s.world.heap.Has v) :
    ∃ text, s.world.heap.text? v = some text := by
  have sound : (lending s.global (fun _ => True) False).Sound s.world.heap :=
    reached.sound.lending _ False.elim
  have held : (lending s.global (fun _ => True) False).Holds s.world.heap v :=
    holds_lending has fun _ _ => trivial
  exact Lisplet.exists_text? sound held.1

/-- No operation that could fail does. In every session that can be reached, and so also after errors,
nothing gets stuck: no evaluation, in the global scope or in any other, no sequence of them, and no
invocation. What results and errors show can be shown. An operator gets to its operands only where
there are two of them, and otherwise nothing is done but to complain about their number. -/
theorem never_stuck (reached : s.Reachable) (depth : Nat) :
    (∀ e defect, (s.evaluate depth e).1 ≠ .error (.stuck defect)) ∧
    (∀ es defect, (s.evaluateAll depth es).1 ≠ .error (.stuck defect)) ∧
    (∀ scope e, s.world.heap.IsScope scope → ∀ defect,
      (Eval.evaluate depth scope e s.world).1 ≠ .error (.stuck defect)) ∧
    (∀ inv : Invocation, (∀ v ∈ inv.roots, s.world.heap.Has v) → ∀ defect,
      (Eval.invoke depth inv s.world).1 ≠ .error (.stuck defect)) ∧
    (∀ v, s.world.heap.Has v → ∃ text, s.world.heap.text? v = some text) ∧
    (∀ e, ∀ v ∈ outcomeValues (s.evaluate depth e).1,
      ∃ text, (s.evaluate depth e).2.world.heap.text? v = some text) ∧
    ∀ (op : Operator) (inv : Invocation) (h : Heap Builtin),
      (∃ x y, inv.arguments = [x, y] ∧ Builtin.call (.operator op) inv h =
        { result := (op.apply x y).mapError fun fault => .failed ⟨fault, inv.line⟩, heap := h }) ∨
      inv.arguments.length ≠ 2 ∧ Builtin.call (.operator op) inv h =
        { result := .error (.failed ⟨.arityMismatch op.name 2 inv.arguments.length, inv.line⟩),
          heap := h } := by
  refine ⟨reached.session_not_stuck depth, reached.evaluateAll_not_stuck depth,
    fun scope e isScope => reached.evaluate_not_stuck depth isScope e,
    fun inv has => reached.invoke_not_stuck depth has, fun v has => reached.exists_text? has, ?_,
    Builtin.call_operator⟩
  intro e v shown
  have offered := reached.offers depth reached.sound.global e v (outcomeValues_forbidReturn shown)
  refine (reached.next depth e).exists_text? ?_
  cases v with
  | object r => exact offered.1
  | undefined | integer | string => trivial

/-- The callee is a function when it is looked at, and then an argument gives its name to an integer;
and an operator that is called as a method gets one operand too few. -/
theorem never_stuck_rebound_callee : ∃ s : Session Transcript, s.Reachable ∧
    (s.evaluate 9 (.call 1 (.access 1 "f")
      [.assign 1 .update "f" (.literal 1 (.integer 1))])).1 = .ok (.integer 7) ∧
    (∀ defect, (s.evaluate 9 (.call 1 (.access 1 "f")
      [.assign 1 .update "f" (.literal 1 (.integer 1))])).1 ≠ .error (.stuck defect)) ∧
    (s.evaluate 9 (.method 2 (.object 2 [("plus", .access 2 "+")]) "plus"
      [.literal 2 (.integer 1)])).1 = .error (.failed ⟨.arityMismatch "+" 2 1, 2⟩) ∧
    (∀ defect, (s.evaluate 9 (.method 2 (.object 2 [("plus", .access 2 "+")]) "plus"
      [.literal 2 (.integer 1)])).1 ≠ .error (.stuck defect)) := by
  have reached := (Reachable.start Transcript.empty).next 9
    (.function 1 (some "f") ["x"] (.block 1 [.leave 1 (.literal 1 (.integer 7))]))
  have free := (never_stuck reached 9).1
  exact ⟨_, reached, rfl, free _, rfl, free _⟩

end Session

/-- A `return` gets no further than the call that it is in. An evaluation ends in a `return` only if one
is exposed in its expression, and otherwise in a value or an error; an invocation never does. The
complaint about a `return` outside of all functions is made of a form of the session that exposes one,
on the line of the form, and of nothing that is evaluated inside. -/
theorem return_stays_inside [Sink σ] (depth : Nat) :
    (∀ (w : World Builtin σ) (scope : Ref) (e : Expr) (v : Value),
      (Eval.evaluate depth scope e w).1 = .error (.returned v) → e.ExposesReturn) ∧
    (∀ s : Session σ, s.Reachable → ∀ (scope : Ref) (e : Expr), s.world.heap.IsScope scope →
      ¬ e.ExposesReturn → (Eval.evaluate depth scope e s.world).1 ≠ .error .exhausted →
        (∃ v, (Eval.evaluate depth scope e s.world).1 = .ok v) ∨
        ∃ err, (Eval.evaluate depth scope e s.world).1 = .error (.failed err)) ∧
    (∀ (s : Session σ) (e : Expr) (line : Nat),
      (s.evaluate depth e).1 = .error (.failed ⟨.returnOutsideFunction, line⟩) →
        e.ExposesReturn ∧ line = e.line) ∧
    (∀ (w : World Builtin σ) (scope : Ref) (e : Expr) (line : Nat),
      (Eval.evaluate depth scope e w).1 ≠ .error (.failed ⟨.returnOutsideFunction, line⟩)) ∧
    ∀ (w : World Builtin σ) (inv : Invocation),
      (∀ v, (Eval.invoke depth inv w).1 ≠ .error (.returned v)) ∧
      ∀ line, (Eval.invoke depth inv w).1 ≠ .error (.failed ⟨.returnOutsideFunction, line⟩) := by
  have ends := fun (w : World Builtin σ) scope e => (Eval.evaluate_orderly depth scope e w).2
  have called := fun (w : World Builtin σ) inv => (Eval.invoke_orderly depth inv w).2
  refine ⟨fun w scope e v returned => ends w scope e _ returned, ?_, ?_,
    fun w scope e line failed => ends w scope e _ failed rfl,
    fun w inv => ⟨fun v returned => called w inv _ returned,
      fun line failed => called w inv _ failed rfl⟩⟩
  · intro s reached scope e isScope covered finished
    have may := ends s.world scope e
    have free := reached.evaluate_not_stuck depth isScope e
    generalize (Eval.evaluate depth scope e s.world).1 = result at may free finished ⊢
    rcases result with ending | v
    · cases ending with
      | returned v => exact absurd (may _ rfl) covered
      | failed err => exact .inr ⟨err, rfl⟩
      | exhausted => exact absurd rfl finished
      | stuck defect => exact absurd rfl (free defect)
    · exact .inl ⟨v, rfl⟩
  · intro s e line failed
    have may := ends s.world s.global e
    simp only [Session.evaluate] at failed
    generalize (Eval.evaluate depth s.global e s.world).1 = result at may failed
    rcases result with ending | v
    · cases ending with
      | returned v =>
        cases failed
        exact ⟨may _ rfl, rfl⟩
      | failed err =>
        cases failed
        exact absurd rfl (may _ rfl)
      | exhausted | stuck => cases failed
    · cases failed

/-- The first form calls a function that returns. The second is a block that returns, and is blamed on
its own first line and not on that of its `return`. -/
theorem return_stays_inside_call : ∃ called block : Expr,
    ¬ called.ExposesReturn ∧ block.line = 2 ∧
    ((Session.start Transcript.empty).evaluate 9 called).1 = .ok (.integer 7) ∧
    ((∃ v, (Eval.evaluate 9 ⟨0⟩ called (Session.start Transcript.empty).world).1 = .ok v) ∨
      ∃ err, (Eval.evaluate 9 ⟨0⟩ called (Session.start Transcript.empty).world).1 =
        .error (.failed err)) ∧
    ((Session.start Transcript.empty).evaluate 9 block).1 =
      .error (.failed ⟨.returnOutsideFunction, 2⟩) ∧
    block.ExposesReturn := by
  have reached := Session.Reachable.start Transcript.empty
  obtain ⟨-, finishes, blames, -, -⟩ := return_stays_inside (σ := Transcript) 9
  refine ⟨.call 1 (.function 1 none [] (.block 1 [.leave 1 (.literal 1 (.integer 7))])) [],
    .block 2 [.leave 3 (.literal 3 (.integer 5))], by decide, rfl, rfl, ?_, rfl, ?_⟩
  · exact finishes _ reached ⟨0⟩ _ reached.sound.global (by decide) (by rintro ⟨⟩)
  · exact (blames (Session.start Transcript.empty) _ 2 rfl).1

end Lisplet
