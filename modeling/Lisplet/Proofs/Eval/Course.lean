import Mathlib.Logic.Relation
import Lisplet.Eval.Session
import Lisplet.Proofs.Eval.Native
import Lisplet.Proofs.Expr.Parts
import Lisplet.Proofs.Object.Growth
/-!
The course of an evaluation, in whatever world it starts. To the world an evaluation does three things
and no others: it creates objects, sets properties and prints (`World.Step`). And it ends in a `return`
only where one is exposed in the expression, because a call takes up every `return` of the body that
it runs. Actions of this sort are orderly, and there is one rule for each way to put them together;
that the evaluator is orderly follows by induction on the depth (`evaluate_orderly`).

Nothing is assumed about the heap, so an evaluation that gets stuck is covered as well. Since no step
takes anything away, no evaluation does (`heap_and_output_only_grow`).
-/
namespace Lisplet

variable {ν σ α β : Type}

namespace World

/-- What an evaluation can do to the world at a time. -/
inductive Step [Sink σ] : World ν σ → World ν σ → Prop where
  | alloc (w : World ν σ) (o : Object ν) : Step w { w with heap := (w.heap.alloc o).2 }
  | register (w : World ν σ) (r : Ref) (name : String) (v : Value) :
      Step w { w with heap := w.heap.register r name v }
  | print (w : World ν σ) (text : String) : Step w { w with sink := Sink.writeln w.sink text }

/-- Any number of steps. -/
def Run [Sink σ] : World ν σ → World ν σ → Prop := Relation.ReflTransGen Step

/-- Every object of the first world is still there in the second, of the same sort, with the same
parent and with its names in their places; and so are the texts that had been printed. What has been
printed is told by `texts`. -/
structure Grows (texts : σ → List String) (w w' : World ν σ) : Prop where
  heap : w.heap.Grows w'.heap
  printed : texts w.sink <+: texts w'.sink

section
variable [Sink σ] {texts : σ → List String}
  (appends : ∀ sink text, texts (Sink.writeln sink text) = texts sink ++ [text])
include appends

theorem Step.grows {w w' : World ν σ} (s : Step w w') : w.Grows texts w' := by
  cases s with
  | alloc o => exact ⟨w.heap.grows_alloc o, List.prefix_refl _⟩
  | register r name v => exact ⟨w.heap.grows_register r name v, List.prefix_refl _⟩
  | print text =>
    refine ⟨.refl _, ?_⟩
    rw [appends]
    exact List.prefix_append _ _

theorem Run.grows {w w' : World ν σ} (run : Run w w') : w.Grows texts w' := by
  induction run with
  | refl => exact ⟨.refl _, List.prefix_refl _⟩
  | tail _ last ih =>
    have next := last.grows appends
    exact ⟨ih.heap.trans next.heap, ih.printed.trans next.printed⟩

end
end World

/-- Evaluation may end like this: in a `return` only if one is exposed, and in no complaint about a
`return` outside of all functions. That complaint is made by sessions. -/
def Ending.Orderly (exposed : Prop) : Ending → Prop
  | .returned _ => exposed
  | .failed e => e.fault ≠ .returnOutsideFunction
  | .exhausted => True
  | .stuck _ => True

theorem Ending.Orderly.mono {p q : Prop} {ending : Ending} (h : ending.Orderly p) (weaker : p → q) :
    ending.Orderly q := by
  cases ending with
  | returned => exact weaker h
  | failed | exhausted | stuck => exact h

namespace Action

variable [Sink σ]

/-- In every world the action takes steps only, and it ends as it may. -/
def Orderly (exposed : Prop) (m : Action ν σ α) : Prop :=
  ∀ w, World.Run w (m w).2 ∧ ∀ ending, (m w).1 = .error ending → ending.Orderly exposed

namespace Orderly

variable {p q : Prop}

theorem pure (a : α) : (Pure.pure a : Action ν σ α).Orderly p := by
  intro w
  refine ⟨.refl, fun ending h => ?_⟩
  cases h

theorem stop {e : Ending} (h : e.Orderly p) : (Action.stop e : Action ν σ α).Orderly p := by
  intro w
  refine ⟨.refl, fun ending same => ?_⟩
  cases same
  exact h

theorem fail {fault : Fault} (other : fault ≠ .returnOutsideFunction) (line : Nat) :
    (Action.fail fault line : Action ν σ α).Orderly p := stop other

theorem mono {m : Action ν σ α} (h : m.Orderly p) (weaker : p → q) : m.Orderly q :=
  fun w => ⟨(h w).1, fun ending same => ((h w).2 ending same).mono weaker⟩

/-- One action after the other. -/
theorem bind {m : Action ν σ α} {f : α → Action ν σ β} (first : m.Orderly p)
    (next : ∀ a, (f a).Orderly p) : (m >>= f).Orderly p := by
  intro w
  obtain ⟨run, ends⟩ := first w
  rcases hm : m w with ⟨e | a, w'⟩
  · rw [hm] at run ends
    rw [run_bind_error hm]
    refine ⟨run, fun ending same => ?_⟩
    cases same
    exact ends e rfl
  · rw [hm] at run
    rw [run_bind_ok hm]
    exact ⟨run.trans (next a w').1, (next a w').2⟩

theorem alloc (o : Object ν) : (Action.alloc o : Action ν σ Ref).Orderly p := by
  intro w
  refine ⟨.single (.alloc w o), fun ending h => ?_⟩
  cases h

theorem register (r : Ref) (name : String) (v : Value) :
    (Action.register r name v : Action ν σ Unit).Orderly p := by
  intro w
  unfold Action.register
  split
  · refine ⟨.single (.register w r name v), fun ending h => ?_⟩
    cases h
  · refine ⟨.refl, fun ending h => ?_⟩
    cases h
    trivial

theorem lookup (r : Ref) (name : String) : (Action.lookup r name : Action ν σ Value).Orderly p := by
  intro w
  unfold Action.lookup
  split
  · exact pure _ w
  · exact stop (e := .stuck .dangling) trivial w

theorem kindOf (r : Ref) : (Action.kindOf r : Action ν σ (Kind ν)).Orderly p := by
  intro w
  unfold Action.kindOf
  split
  · exact pure _ w
  · exact stop (e := .stuck .dangling) trivial w

/-- A `return` that is caught does not get out. -/
theorem catchReturn {m : Action ν σ Value} (h : m.Orderly p) :
    (Action.catchReturn m).Orderly False := by
  intro w
  obtain ⟨run, ends⟩ := h w
  rcases hm : m w with ⟨e | v, w'⟩
  · rw [hm] at run ends
    have may := ends e rfl
    cases e with
    | returned v =>
      rw [Action.catchReturn, hm]
      refine ⟨run, fun ending same => ?_⟩
      cases same
    | failed | exhausted | stuck =>
      rw [Action.catchReturn, hm]
      refine ⟨run, fun ending same => ?_⟩
      cases same
      exact may
  · rw [hm] at run
    rw [Action.catchReturn, hm]
    refine ⟨run, fun ending same => ?_⟩
    cases same

end Orderly
end Action

namespace Eval

open Lisplet.Action

variable [Sink σ]

theorem expectFunction_orderly {p : Prop} (v : Value) (line : Nat) :
    (expectFunction v line : Action ν σ Ref).Orderly p := by
  cases v with
  | object r =>
    refine (Orderly.kindOf r).bind fun kind => ?_
    split
    · exact .pure r
    · exact .fail (by simp) line
  | undefined | integer | string => exact .fail (by simp) line

theorem expectObject_orderly {p : Prop} (v : Value) (line : Nat) :
    (expectObject v line : Action ν σ Ref).Orderly p := by
  cases v with
  | object r => exact .pure r
  | undefined | integer | string => exact .fail (by simp) line

theorem bindParameters_orderly {p : Prop} (scope : Ref) (parameters : List String)
    (arguments : List Value) :
    (bindParameters scope parameters arguments : Action ν σ Unit).Orderly p := by
  induction parameters generalizing arguments with
  | nil =>
    cases arguments with
    | nil => exact .pure ()
    | cons => exact .stop trivial
  | cons x xs ih =>
    cases arguments with
    | nil => exact .stop trivial
    | cons v vs => exact (Orderly.register scope x v).bind fun _ => ih vs

theorem evalFunction_orderly {p : Prop} (scope : Ref) (line : Nat) (name : Option String)
    (parameters : List String) (body : Expr) :
    (evalFunction scope line name parameters body : Action ν σ Value).Orderly p := by
  refine (Orderly.alloc _).bind fun r => ?_
  cases name with
  | none => exact .pure _
  | some x => exact (Orderly.register scope x _).bind fun _ => .pure _

theorem callNative_orderly {p : Prop} (b : Builtin) (inv : Invocation) :
    (callNative b inv : Action Builtin σ Value).Orderly p := by
  intro w
  cases b with
  | print =>
    simp only [callNative, Native.call, Builtin.call, Builtin.miscount?, Builtin.arity?,
      Option.bind_none, Builtin.perform]
    split
    · refine ⟨.single (.print w _), fun ending h => ?_⟩
      cases h
    · exact Orderly.stop (e := .stuck .dangling) trivial w
  | operator op =>
    rcases Builtin.call_operator op inv w.heap with ⟨x, y, -, reply⟩ | ⟨-, reply⟩
    · simp only [callNative, Native.call, reply]
      refine ⟨.refl, fun ending h => ?_⟩
      cases answer : op.apply x y with
      | ok v =>
        rw [answer] at h
        cases h
      | error fault =>
        rw [answer] at h
        cases h
        rcases Operator.fault_of_apply answer with ⟨rfl, -⟩ | ⟨rfl, -⟩ | rfl <;> simp [Ending.Orderly]
    · simp only [callNative, Native.call, reply]
      exact Orderly.fail (by simp) inv.line w

theorem evalAssign_orderly {p : Prop} {go : Ref → Expr → Action ν σ Value} (scope : Ref) (line : Nat)
    (mode : AssignMode) (name : String) {value : Expr} (part : (go scope value).Orderly p) :
    (evalAssign go scope line mode name value).Orderly p := by
  refine (Orderly.lookup scope name).bind fun known => ?_
  split
  · exact .fail (by simp) line
  · exact .fail (by simp) line
  · exact part.bind fun v => (Orderly.register scope name v).bind fun _ => .pure _

section
variable {go : Ref → Expr → Action ν σ Value}
  (orderly : ∀ scope e, (go scope e).Orderly e.ExposesReturn)
include orderly

theorem evalAll_orderly (scope : Ref) (es : List Expr) :
    (evalAll go scope es).Orderly (∃ e ∈ es, e.ExposesReturn) := by
  induction es with
  | nil => exact .pure []
  | cons e es ih =>
    have head := (orderly scope e).mono (List.exists_mem_cons_of es)
    have tail := ih.mono (List.exists_mem_cons_of_exists (a := e))
    exact head.bind fun v => tail.bind fun vs => .pure _

theorem evalProperties_orderly (scope object : Ref) (properties : List (String × Expr)) :
    (evalProperties go scope object properties).Orderly
      (∃ e ∈ properties.map (·.2), e.ExposesReturn) := by
  induction properties with
  | nil => exact .pure ()
  | cons p ps ih =>
    have head := (orderly scope p.2).mono (List.exists_mem_cons_of (ps.map (·.2)))
    have tail := ih.mono (List.exists_mem_cons_of_exists (a := p.2))
    exact head.bind fun v => (Orderly.register object p.1 v).bind fun _ => tail

/-- A call ends in no `return`, whatever its body exposes. -/
theorem callClosure_orderly (name : String) (c : Closure) (inv : Invocation) :
    (callClosure go name c inv).Orderly False := by
  unfold callClosure
  split
  · refine (Orderly.alloc _).bind fun scope => ?_
    refine (Orderly.register scope "this" _).bind fun _ => ?_
    refine (bindParameters_orderly scope _ _).bind fun _ => ?_
    exact (orderly scope c.body).catchReturn
  · exact .fail (by simp) c.line

end

section
variable {go : Ref → Expr → Action Builtin σ Value}
  (orderly : ∀ scope e, (go scope e).Orderly e.ExposesReturn)
include orderly

theorem apply_orderly (inv : Invocation) : (apply go inv).Orderly False := by
  refine (Orderly.kindOf inv.function).bind fun kind => ?_
  split
  · exact callNative_orderly _ inv
  · exact callClosure_orderly orderly _ _ inv
  · exact .stop trivial

/-- If the evaluator is orderly on the parts of an expression it is orderly on the expression. -/
theorem step_orderly (scope : Ref) (e : Expr) : (step go scope e).Orderly e.ExposesReturn := by
  -- What is exposed in a part that is evaluated here is exposed in the whole.
  have part : ∀ p ∈ e.openParts, (go scope p).Orderly e.ExposesReturn := fun p hp =>
    (orderly scope p).mono fun exposed => Expr.exposesReturn_iff.mpr (.inr ⟨p, hp, exposed⟩)
  have parts : ∀ es : List Expr, es ⊆ e.openParts →
      (evalAll go scope es).Orderly e.ExposesReturn := by
    intro es among
    refine (evalAll_orderly orderly scope es).mono ?_
    rintro ⟨p, hp, exposed⟩
    exact Expr.exposesReturn_iff.mpr (.inr ⟨p, among hp, exposed⟩)
  cases e with
  | literal l v => exact .pure _
  | block l body => exact (parts body (List.Subset.refl body)).bind fun _ => .pure _
  | access l x => exact .lookup scope x
  | assign l mode x value =>
    exact evalAssign_orderly scope l mode x (part value List.mem_cons_self)
  | function l name parameters body => exact evalFunction_orderly scope l name parameters body
  | call l callee arguments =>
    refine (part callee List.mem_cons_self).bind fun v => ?_
    refine (expectFunction_orderly v l).bind fun f => ?_
    refine (parts arguments (List.subset_cons_self _ _)).bind fun vs => ?_
    exact (apply_orderly orderly _).mono False.elim
  | leave l value =>
    refine (part value List.mem_cons_self).bind fun v => .stop ?_
    exact Expr.exposesReturn_iff.mpr (.inl rfl)
  | conditional l condition yes no =>
    refine (part condition List.mem_cons_self).bind fun v => ?_
    split
    · exact part yes (by simp [Expr.openParts, Expr.parts])
    · exact part no (by simp [Expr.openParts, Expr.parts])
  | object l properties =>
    refine (Orderly.alloc _).bind fun r => ?_
    have filled := (evalProperties_orderly orderly scope r properties).mono fun exposed =>
      (Expr.exposesReturn_iff (e := .object l properties)).mpr (.inr exposed)
    exact filled.bind fun _ => .pure _
  | field l receiver x =>
    refine (part receiver List.mem_cons_self).bind fun v => ?_
    exact (expectObject_orderly v l).bind fun r => .lookup r x
  | setField l receiver x value =>
    refine (part receiver List.mem_cons_self).bind fun v => ?_
    refine (expectObject_orderly v l).bind fun r => ?_
    refine (part value (by simp [Expr.openParts, Expr.parts])).bind fun u => ?_
    exact (Orderly.register r x u).bind fun _ => .pure _
  | method l receiver x arguments =>
    refine (part receiver List.mem_cons_self).bind fun v => ?_
    refine (expectObject_orderly v l).bind fun r => ?_
    refine (Orderly.lookup r x).bind fun callee => ?_
    refine (expectFunction_orderly callee l).bind fun f => ?_
    refine (parts arguments (List.subset_cons_self _ _)).bind fun vs => ?_
    exact (apply_orderly orderly _).mono False.elim

end

theorem evaluate_orderly (depth : Nat) (scope : Ref) (e : Expr) :
    (evaluate depth scope e : Action Builtin σ Value).Orderly e.ExposesReturn := by
  induction depth generalizing scope e with
  | zero => exact .stop trivial
  | succ depth ih => exact step_orderly ih scope e

theorem invoke_orderly (depth : Nat) (inv : Invocation) :
    (invoke depth inv : Action Builtin σ Value).Orderly False := by
  refine (expectFunction_orderly _ inv.line).bind fun _ => ?_
  exact apply_orderly (evaluate_orderly depth) inv

end Eval

/-- Nothing is ever taken away. Whatever is evaluated or invoked, in whatever world and however it
ends, every object stays, with its sort, its code and its parent; the names of its properties stay in
their places, and further ones go behind them; and what was printed stays printed. -/
theorem heap_and_output_only_grow [Sink σ] {texts : σ → List String}
    (appends : ∀ sink text, texts (Sink.writeln sink text) = texts sink ++ [text]) (depth : Nat) :
    (∀ (s : Session σ) (e : Expr), (s.evaluate depth e).2.global = s.global ∧
      s.world.Grows texts (s.evaluate depth e).2.world) ∧
    (∀ (w : World Builtin σ) (scope : Ref) (e : Expr),
      w.Grows texts (Eval.evaluate depth scope e w).2) ∧
    ∀ (w : World Builtin σ) (inv : Invocation), w.Grows texts (Eval.invoke depth inv w).2 := by
  have evaluated : ∀ (w : World Builtin σ) (scope : Ref) (e : Expr),
      w.Grows texts (Eval.evaluate depth scope e w).2 :=
    fun w scope e => (Eval.evaluate_orderly depth scope e w).1.grows appends
  refine ⟨fun s e => ⟨rfl, evaluated s.world s.global e⟩, evaluated, fun w inv => ?_⟩
  exact (Eval.invoke_orderly depth inv w).1.grows appends

/-- An object that is only half built when its second property fails, after the first has printed and
has given the global scope a new name. -/
theorem half_built_object_only_grows : ∃ e,
    ((Session.start Transcript.empty).evaluate 9 e).1 =
      .error (.failed ⟨.invalidCallee (.integer 1), 2⟩) ∧
    ((Session.start Transcript.empty).evaluate 9 e).2.world.sink.texts = #["<function f>"] ∧
    (((Session.start Transcript.empty).evaluate 9 e).2.world.heap.get? ⟨0⟩).map
      (·.slots.names.getLast?) = some (some "f") ∧
    (Session.start Transcript.empty).world.Grows (·.texts.toList)
      ((Session.start Transcript.empty).evaluate 9 e).2.world := by
  have appends : ∀ (sink : Transcript) (text : String),
      (Sink.writeln sink text).texts.toList = sink.texts.toList ++ [text] := by
    intro sink text
    simp [Sink.writeln]
  refine ⟨.object 1
    [("a", .call 1 (.access 1 "print") [.function 1 (some "f") [] (.block 1 [])]),
      ("b", .call 2 (.literal 2 (.integer 1)) [])], rfl, rfl, rfl, ?_⟩
  exact ((heap_and_output_only_grow appends 9).1 _ _).2

end Lisplet
