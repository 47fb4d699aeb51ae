import Lisplet.Proofs.Eval.Finishes
import Lisplet.Proofs.Expr.Flatten
/-!
Flat and nested blocks are evaluated alike. The blocks of an expression have no scopes of their own and
their values are not used, so that only the leaves of a block count. But every block in a block takes
one level of depth. So it cannot be said depth by depth that an expression and what it becomes do the
same; it can be said that where the one is not cut short by its depth, the other does the same from
some depth on (`Follows`).

There are functions in the heap too, so the worlds that are compared are the same once they have been
flattened. One half is enough: that expressions which become the same follow each other
(`evaluate_follows`) says both that a flattened expression follows its original and that the original
follows it.
-/
namespace Lisplet

variable {ν σ α β : Type}

def Closure.flatten (c : Closure) : Closure := { c with body := c.body.flatten }

def Kind.flatten : Kind ν → Kind ν
  | .function name (.closure c) => .function name (.closure c.flatten)
  | kind => kind

def Object.flatten (o : Object ν) : Object ν := { o with kind := o.kind.flatten }

/-- The heap with the bodies of its functions flattened. -/
def Heap.flatten (h : Heap ν) : Heap ν := ⟨h.objects.map Object.flatten⟩

def World.flatten (w : World ν σ) : World ν σ := { w with heap := w.heap.flatten }

/-! What does not depend on the bodies of functions. -/

@[simp] theorem Kind.isFunction_flatten (k : Kind ν) : k.flatten.isFunction = k.isFunction := by
  rcases k with _ | _ | ⟨_, _ | _⟩ <;> rfl

@[simp] theorem Kind.short_flatten (k : Kind ν) : k.flatten.short = k.short := by
  rcases k with _ | _ | ⟨_, _ | _⟩ <;> rfl

namespace Heap

@[simp] theorem size_flatten (h : Heap ν) : h.flatten.objects.size = h.objects.size := by
  simp [flatten]

@[simp] theorem get?_flatten (h : Heap ν) (r : Ref) :
    h.flatten.get? r = (h.get? r).map Object.flatten := by
  simp [flatten, get?]

theorem lookupWithin_flatten (h : Heap ν) (name : String) (fuel : Nat) (r : Ref) :
    h.flatten.lookupWithin name fuel r = h.lookupWithin name fuel r := by
  induction fuel generalizing r with
  | zero => rfl
  | succ fuel ih =>
    simp only [lookupWithin, get?_flatten]
    cases h.get? r with
    | none => rfl
    | some o => simp only [Option.map_some, Object.flatten, ih]

@[simp] theorem lookup?_flatten (h : Heap ν) (r : Ref) (name : String) :
    h.flatten.lookup? r name = h.lookup? r name :=
  h.lookupWithin_flatten name _ r

theorem propertyText?_flatten (h : Heap ν) (v : Value) :
    h.flatten.propertyText? v = h.propertyText? v := by
  cases v with
  | object r =>
    simp only [propertyText?, short?, get?_flatten, Option.map_map]
    exact congrArg (Option.map · _) (funext fun o => o.kind.short_flatten)
  | undefined | integer | string => rfl

@[simp] theorem text?_flatten (h : Heap ν) (v : Value) : h.flatten.text? v = h.text? v := by
  cases v with
  | object r =>
    simp only [text?, objectText?, get?_flatten]
    cases h.get? r with
    | none => rfl
    | some o =>
      rcases o with ⟨_ | _ | ⟨_, _ | _⟩, slots, parent⟩
      · rfl
      · simp [Object.flatten, Kind.flatten, propertyText?_flatten]
      · rfl
      · rfl
  | undefined | integer | string => rfl

theorem flatten_alloc (h : Heap ν) (o : Object ν) :
    (h.alloc o).2.flatten = (h.flatten.alloc o.flatten).2 := by
  simp [flatten, alloc]

theorem flatten_register (h : Heap ν) (r : Ref) (name : String) (v : Value) :
    (h.register r name v).flatten = h.flatten.register r name v := by
  refine congrArg Heap.mk (Array.ext_getElem? fun i => ?_)
  simp only [register, flatten, Array.getElem?_map, Array.getElem?_modify]
  split
  · simp [Option.map_map, Function.comp_def, Object.flatten]
  · rfl

end Heap

/-- The worlds are the same but for blocks in blocks. -/
def World.SameFlat (w w' : World ν σ) : Prop := w.flatten = w'.flatten

namespace World.SameFlat

variable {w w' : World ν σ}

theorem heap (h : w.SameFlat w') : w.heap.flatten = w'.heap.flatten := congrArg World.heap h

theorem sink (h : w.SameFlat w') : w.sink = w'.sink :=
  (congrArg World.sink h : w.flatten.sink = w'.flatten.sink)

theorem of_heap {h h' : Heap ν} (heaps : h.flatten = h'.flatten) (s : σ) :
    SameFlat ⟨h, s⟩ ⟨h', s⟩ := congrArg (World.mk · s) heaps

theorem size (h : w.SameFlat w') : w.heap.objects.size = w'.heap.objects.size := by
  rw [← w.heap.size_flatten, h.heap, w'.heap.size_flatten]

theorem get? (h : w.SameFlat w') (r : Ref) :
    (w.heap.get? r).map Object.flatten = (w'.heap.get? r).map Object.flatten := by
  rw [← Heap.get?_flatten, h.heap, Heap.get?_flatten]

end World.SameFlat

theorem Action.bind_bind {γ : Type} (m : Action ν σ α) (f : α → Action ν σ β)
    (g : β → Action ν σ γ) : m >>= f >>= g = m >>= fun a => f a >>= g := by
  funext w
  simp only [run_bind]
  rcases m w with ⟨_ | _, _⟩ <;> rfl

theorem Action.bind_unit (m : Action ν σ Unit) : (m >>= fun _ => pure ()) = m := by
  funext w
  rw [run_bind]
  rcases m w with ⟨_ | _, _⟩ <;> rfl

namespace Eval

open Lisplet.Action World

/-- Wherever the first action is not cut short, the second does the same from some depth on: it has the
same result, and worlds that stood in `W` before stand in it afterwards. -/
def Follows (W : World ν σ → World ν σ → Prop) (m : Action ν σ α) (m' : Nat → Action ν σ α) :
    Prop :=
  ∀ w w', W w w' → (m w).1 ≠ .error .exhausted →
    ∃ w₁, Settles m' w' (m w).1 w₁ ∧ W (m w).2 w₁

namespace Follows

variable {W : World ν σ → World ν σ → Prop}

theorem of_same {m m' : Action ν σ α}
    (same : ∀ w w', W w w' → (m w).1 = (m' w').1 ∧ W (m w).2 (m' w').2) :
    Follows W m fun _ => m' := by
  intro w w' worlds _
  obtain ⟨results, later⟩ := same w w' worlds
  exact ⟨(m' w').2, .const (Prod.ext results.symm rfl), later⟩

theorem pure (a : α) : Follows W (Pure.pure a) fun _ => Pure.pure a :=
  of_same fun _ _ worlds => ⟨rfl, worlds⟩

theorem stop (e : Ending) : Follows W (Action.stop e : Action ν σ α) fun _ => Action.stop e :=
  of_same fun _ _ worlds => ⟨rfl, worlds⟩

theorem bind {m : Action ν σ α} {m' : Nat → Action ν σ α} {f : α → Action ν σ β}
    {f' : Nat → α → Action ν σ β} (first : Follows W m m')
    (next : ∀ a, Follows W (f a) fun d => f' d a) :
    Follows W (m >>= f) fun d => m' d >>= f' d := by
  intro w w' worlds finished
  rcases hm : m w with ⟨ending | a, w₁⟩
  · rw [run_bind_error hm] at finished ⊢
    obtain ⟨w₁', settles, later⟩ := first w w' worlds (by simpa [hm] using finished)
    rw [hm] at settles later
    exact ⟨w₁', settles.bind_error f', later⟩
  · rw [run_bind_ok hm] at finished ⊢
    obtain ⟨w₁', settles, later⟩ := first w w' worlds (by simp [hm])
    rw [hm] at settles later
    obtain ⟨w₂', settles', later'⟩ := next a w₁ w₁' later finished
    exact ⟨w₂', settles.bind settles', later'⟩

theorem catchReturn {m : Action ν σ Value} {m' : Nat → Action ν σ Value} (h : Follows W m m') :
    Follows W (Action.catchReturn m) fun d => Action.catchReturn (m' d) := by
  intro w w' worlds finished
  have inner : (m w).1 ≠ .error .exhausted := by
    intro cut
    rcases hm : m w with ⟨r, w₁⟩
    rw [hm] at cut
    cases cut
    exact finished (by simp [Action.catchReturn, hm])
  obtain ⟨w₁', ⟨depth, settles⟩, later⟩ := h w w' worlds inner
  rcases hm : m w with ⟨(_ | _ | _ | _) | v, w₁⟩ <;> rw [hm] at settles later <;>
    exact ⟨w₁', ⟨depth, fun d hd => by simp only [Action.catchReturn, hm, settles d hd]⟩,
      by simpa only [Action.catchReturn, hm] using later⟩

/-- An action may be put in front that goes no further. -/
theorem of_within {a b : Action ν σ α} {m' : Nat → Action ν σ α} (within : Within a b)
    (h : Follows W b m') : Follows W a m' := by
  intro w w' worlds finished
  have same := within w finished
  have follows := h w w' worlds (by rwa [same])
  rwa [same] at follows

/-- What is followed may be followed further in the same world. -/
theorem trans {m : Action ν σ α} {m' m'' : Nat → Action ν σ α} (h : Follows W m m')
    (onward : ∀ d, Follows Eq (m' d) m'') : Follows W m m'' := by
  intro w w' worlds finished
  obtain ⟨w₁, ⟨depth, settles⟩, later⟩ := h w w' worlds finished
  have here := settles depth (Nat.le_refl depth)
  obtain ⟨_, settles', rfl⟩ := onward depth w' w' rfl (by rwa [here])
  rw [here] at settles'
  exact ⟨w₁, settles', later⟩

/-- What happens at the first depths does not count. -/
theorem later {m : Action ν σ α} {m' : Nat → Action ν σ α}
    (h : Follows W m fun d => m' (d + 1)) : Follows W m m' := by
  intro w w' worlds finished
  obtain ⟨w₁, ⟨depth, settles⟩, later⟩ := h w w' worlds finished
  refine ⟨w₁, ⟨depth + 1, fun d hd => ?_⟩, later⟩
  obtain ⟨d, rfl⟩ := Nat.exists_eq_add_of_le' hd
  exact settles (d + depth) (Nat.le_add_left _ _)

end Follows

theorem evaluate_settles [Native ν] [Sink σ] (depth : Nat) (scope : Ref) (e : Expr) :
    Follows Eq (evaluate depth scope e : Action ν σ Value) fun d => evaluate d scope e := by
  rintro w _ rfl finished
  exact ⟨_, Finishes.settles ⟨finished, depth, rfl⟩, rfl⟩

/-! Blocks in blocks, in one world. -/

section
variable (go : Ref → Expr → Action ν σ Value)

/-- Evaluate the expressions in order and forget their values. -/
def runAll (scope : Ref) : List Expr → Action ν σ Unit
  | [] => pure ()
  | e :: es => do
    let _ ← go scope e
    runAll scope es

theorem runAll_append (scope : Ref) (es es' : List Expr) :
    runAll go scope (es ++ es') = runAll go scope es >>= fun _ => runAll go scope es' := by
  induction es with
  | nil => rfl
  | cons e es ih => rw [List.cons_append, runAll, ih, runAll, bind_bind]

theorem evalAll_bind (scope : Ref) (es : List Expr) (k : Action ν σ α) :
    (evalAll go scope es >>= fun _ => k) = runAll go scope es >>= fun _ => k := by
  induction es with
  | nil => rfl
  | cons e es ih =>
    rw [evalAll, runAll, bind_bind, bind_bind]
    refine congrArg (go scope e >>= ·) (funext fun v => ?_)
    rw [bind_bind]
    exact ih

theorem step_block [Native ν] [Sink σ] (scope : Ref) (l : Nat) (body : List Expr) :
    step go scope (.block l body) = runAll go scope body >>= fun _ => pure Value.undefined :=
  evalAll_bind go scope body (pure Value.undefined)

theorem runAll_cons (scope : Ref) (e : Expr) (es : List Expr) : runAll go scope (e :: es) =
    (go scope e >>= fun _ => pure ()) >>= fun _ => runAll go scope es := by
  rw [bind_bind]
  rfl

end

section
variable {go : Ref → Expr → Action ν σ Value} {scope : Ref}

theorem runAll_within {go' : Ref → Expr → Action ν σ Value}
    (h : ∀ r e, Within (go r e) (go' r e)) (es : List Expr) :
    Within (runAll go scope es) (runAll go' scope es) := by
  induction es with
  | nil => exact .refl _
  | cons e es ih => exact (h scope e).bind fun _ => ih

theorem runAll_leavesAll_within {es : List Expr}
    (h : ∀ e ∈ es, Within (go scope e >>= fun _ => pure ()) (runAll go scope e.leaves)) :
    Within (runAll go scope es) (runAll go scope (Expr.leavesAll es)) := by
  induction es with
  | nil => exact .refl _
  | cons e es ih =>
    obtain ⟨head, rest⟩ := List.forall_mem_cons.mp h
    rw [Expr.leavesAll, runAll_append, runAll_cons]
    exact head.bind fun _ => ih rest

theorem runAll_leavesAll_follows {go' : Nat → Ref → Expr → Action ν σ Value} {es : List Expr}
    (h : ∀ e ∈ es, Follows Eq (runAll go scope e.leaves) fun d =>
      go' d scope e >>= fun _ => pure ()) :
    Follows Eq (runAll go scope (Expr.leavesAll es)) fun d => runAll (go' d) scope es := by
  induction es with
  | nil => exact .pure ()
  | cons e es ih =>
    obtain ⟨head, rest⟩ := List.forall_mem_cons.mp h
    simp only [Expr.leavesAll, runAll_append, runAll_cons]
    exact head.bind fun _ => ih rest

end

section
variable [Native ν] [Sink σ]

/-- As an instruction, a block does what its instructions do one level deeper. -/
theorem evaluate_block (depth : Nat) (scope : Ref) (l : Nat) (body : List Expr) :
    ((evaluate (depth + 1) scope (.block l body) : Action ν σ Value) >>= fun _ => pure ()) =
      runAll (evaluate depth) scope body := by
  simp only [evaluate, step_block, bind_bind]
  exact bind_unit _

/-- At every depth one gets at least as far with the leaves of an instruction as with itself. -/
theorem leaves_within (depth : Nat) (scope : Ref) (e : Expr) :
    Within ((evaluate depth scope e : Action ν σ Value) >>= fun _ => pure ())
      (runAll (evaluate depth) scope e.leaves) := by
  induction e using Expr.induction generalizing depth with
  | block l body ih =>
    cases depth with
    | zero => exact fun _ finished => absurd rfl finished
    | succ depth =>
      rw [evaluate_block, Expr.leaves]
      refine (runAll_leavesAll_within fun e he => ih e he depth).trans ?_
      exact runAll_within (evaluate_within_succ depth) _
  | _ => exact .refl _

/-- An instruction gets as far as its leaves, though it takes a greater depth. -/
theorem leaves_follows (depth : Nat) (scope : Ref) (e : Expr) :
    Follows Eq (runAll (evaluate depth) scope e.leaves : Action ν σ Unit) fun d =>
      evaluate d scope e >>= fun _ => pure () := by
  induction e using Expr.induction with
  | block l body ih =>
    refine .later ?_
    simp only [evaluate_block]
    exact runAll_leavesAll_follows ih
  | _ => exact (evaluate_settles depth scope _).bind fun _ => .pure ()

end

/-! In worlds that are the same but for blocks in blocks. -/

theorem alloc_follows {o o' : Object ν} (same : o.flatten = o'.flatten) :
    Follows SameFlat (alloc o : Action ν σ Ref) fun _ => alloc o' := by
  refine .of_same fun w w' worlds => ⟨congrArg (fun i => Except.ok (Ref.mk i)) worlds.size, ?_⟩
  simp only [alloc, worlds.sink]
  exact .of_heap (by rw [Heap.flatten_alloc, Heap.flatten_alloc, worlds.heap, same]) _

theorem register_follows (r : Ref) (name : String) (v : Value) :
    Follows SameFlat (register r name v : Action ν σ Unit) fun _ => register r name v := by
  refine .of_same fun w w' worlds => ?_
  simp only [register, worlds.size, worlds.sink]
  split
  · exact ⟨rfl, .of_heap (by rw [Heap.flatten_register, Heap.flatten_register, worlds.heap]) _⟩
  · exact ⟨rfl, worlds⟩

theorem lookup_follows (r : Ref) (name : String) :
    Follows SameFlat (lookup r name : Action ν σ Value) fun _ => lookup r name := by
  refine .of_same fun w w' worlds => ?_
  have found : w.heap.lookup? r name = w'.heap.lookup? r name := by
    rw [← Heap.lookup?_flatten, worlds.heap, Heap.lookup?_flatten]
  simp only [lookup, found]
  split
  · exact ⟨rfl, worlds⟩
  · exact ⟨rfl, worlds⟩

/-- The sorts of an object are the same but for the body, if it is a function. -/
theorem kindOf_follows (r : Ref) {f : Kind ν → Action ν σ α} {f' : Nat → Kind ν → Action ν σ α}
    (next : ∀ k k', k.flatten = k'.flatten → Follows SameFlat (f k) fun d => f' d k') :
    Follows SameFlat (kindOf r >>= f) fun d => kindOf r >>= f' d := by
  intro w w' worlds finished
  have objects := worlds.get? r
  cases ho : w.heap.get? r with
  | none =>
    have ho' : w'.heap.get? r = none := by simpa [ho] using objects.symm
    have here : kindOf r w = (.error (.stuck .dangling), w) := by simp only [kindOf, ho]
    have here' : kindOf r w' = (.error (.stuck .dangling), w') := by simp only [kindOf, ho']
    rw [run_bind_error here]
    exact ⟨w', .bind_error (.const here') f', worlds⟩
  | some o =>
    obtain ⟨o', ho', same⟩ : ∃ o', w'.heap.get? r = some o' ∧ o'.flatten = o.flatten := by
      simpa [ho] using objects.symm
    have here : kindOf r w = (.ok o.kind, w) := by simp only [kindOf, ho]
    have here' : kindOf r w' = (.ok o'.kind, w') := by simp only [kindOf, ho']
    rw [run_bind_ok here] at finished ⊢
    obtain ⟨w₁, settles, later⟩ :=
      next o.kind o'.kind (congrArg Object.kind same.symm) w w' worlds finished
    exact ⟨w₁, .bind (.const here') settles, later⟩

theorem expectFunction_follows (v : Value) (line : Nat) :
    Follows SameFlat (expectFunction v line : Action ν σ Ref) fun _ => expectFunction v line := by
  cases v with
  | object r =>
    refine kindOf_follows r fun k k' same => ?_
    rw [← k.isFunction_flatten, same, k'.isFunction_flatten]
    split
    · exact .pure r
    · exact .stop _
  | undefined | integer | string => exact .stop _

theorem expectObject_follows (v : Value) (line : Nat) :
    Follows SameFlat (expectObject v line : Action ν σ Ref) fun _ => expectObject v line := by
  cases v with
  | object r => exact .pure r
  | undefined | integer | string => exact .stop _

theorem bindParameters_follows (scope : Ref) (parameters : List String) (arguments : List Value) :
    Follows SameFlat (bindParameters scope parameters arguments : Action ν σ Unit) fun _ =>
      bindParameters scope parameters arguments := by
  induction parameters generalizing arguments with
  | nil =>
    cases arguments with
    | nil => exact .pure ()
    | cons => exact .stop _
  | cons p ps ih =>
    cases arguments with
    | nil => exact .stop _
    | cons v vs => exact (register_follows scope p v).bind fun _ => ih vs

theorem evalFunction_follows (scope : Ref) (line : Nat) (name : Option String)
    (parameters : List String) {body body' : Expr} (same : body.flatten = body'.flatten) :
    Follows SameFlat (evalFunction scope line name parameters body : Action ν σ Value) fun _ =>
      evalFunction scope line name parameters body' := by
  refine (alloc_follows ?_).bind fun r => ?_
  · simp only [Object.flatten, Kind.flatten, Closure.flatten, same]
  · cases name with
    | none => exact .pure _
    | some x => exact (register_follows scope x _).bind fun _ => .pure _

/-- A builtin does not look into functions. -/
theorem callNative_follows [Sink σ] (b : Builtin) (inv : Invocation) :
    Follows SameFlat (callNative b inv : Action Builtin σ Value) fun _ => callNative b inv := by
  refine .of_same fun w w' worlds => ?_
  have texts : w.heap.text? = w'.heap.text? := funext fun v => by
    rw [← Heap.text?_flatten, worlds.heap, Heap.text?_flatten]
  simp only [callNative, Native.call, Builtin.call, worlds.sink]
  cases b.miscount? inv.arguments with
  | some fault => exact ⟨rfl, .of_heap worlds.heap _⟩
  | none =>
    cases b with
    | print =>
      simp only [Builtin.perform, texts]
      cases inv.arguments.mapM w'.heap.text? with
      | none => exact ⟨rfl, .of_heap worlds.heap _⟩
      | some texts => exact ⟨rfl, .of_heap worlds.heap _⟩
    | operator op => exact ⟨rfl, .of_heap worlds.heap _⟩

section
variable {go : Ref → Expr → Action ν σ Value} {go' : Nat → Ref → Expr → Action ν σ Value}
  (parts : ∀ scope e e', e.flatten = e'.flatten →
    Follows SameFlat (go scope e) fun d => go' d scope e')
include parts

theorem evalAll_follows (scope : Ref) {es es' : List Expr}
    (same : List.Forall₂ (fun e e' => e.flatten = e'.flatten) es es') :
    Follows SameFlat (evalAll go scope es) fun d => evalAll (go' d) scope es' := by
  induction same with
  | nil => exact .pure []
  | cons head _ ih =>
    exact (parts scope _ _ head).bind fun v => ih.bind fun vs => .pure (v :: vs)

theorem evalProperties_follows (scope object : Ref) {ps ps' : List (String × Expr)}
    (same : List.Forall₂ (fun p p' => p.1 = p'.1 ∧ p.2.flatten = p'.2.flatten) ps ps') :
    Follows SameFlat (evalProperties go scope object ps) fun d =>
      evalProperties (go' d) scope object ps' := by
  induction same with
  | nil => exact .pure ()
  | @cons p p' ps ps' head _ ih =>
    rcases p with ⟨x, e⟩
    rcases p' with ⟨_, e'⟩
    obtain ⟨rfl, value⟩ := head
    exact (parts scope e e' value).bind fun v => (register_follows object x v).bind fun _ => ih

theorem callClosure_follows (name : String) {c c' : Closure} (same : c.flatten = c'.flatten)
    (inv : Invocation) :
    Follows SameFlat (callClosure go name c inv) fun d => callClosure (go' d) name c' inv := by
  obtain ⟨line, parameters, body, scope⟩ := c
  obtain ⟨line', parameters', body', scope'⟩ := c'
  obtain ⟨rfl, rfl, bodies, rfl⟩ := Closure.mk.inj same
  simp only [callClosure]
  split
  · refine (alloc_follows rfl).bind fun inner => ?_
    refine (register_follows inner "this" _).bind fun _ => ?_
    refine (bindParameters_follows inner _ _).bind fun _ => .catchReturn ?_
    exact parts inner _ _ bodies
  · exact .stop _

theorem evalAssign_follows (scope : Ref) (line : Nat) (mode : AssignMode) (name : String)
    {value value' : Expr} (same : value.flatten = value'.flatten) :
    Follows SameFlat (evalAssign go scope line mode name value) fun d =>
      evalAssign (go' d) scope line mode name value' := by
  refine (lookup_follows scope name).bind fun known => ?_
  split
  · exact .stop _
  · exact .stop _
  · exact (parts scope value value' same).bind fun v =>
      (register_follows scope name v).bind fun _ => .pure _

theorem runAll_follows (scope : Ref) {es es' : List Expr}
    (same : List.Forall₂ (fun e e' => e.flatten = e'.flatten) es es') :
    Follows SameFlat (runAll go scope es) fun d => runAll (go' d) scope es' := by
  induction same with
  | nil => exact .pure ()
  | cons head _ ih => exact (parts scope _ _ head).bind fun _ => ih

end

section
variable [Sink σ] {go : Ref → Expr → Action Builtin σ Value}
  {go' : Nat → Ref → Expr → Action Builtin σ Value}
  (parts : ∀ scope e e', e.flatten = e'.flatten →
    Follows SameFlat (go scope e) fun d => go' d scope e')
include parts

theorem apply_follows (inv : Invocation) :
    Follows SameFlat (apply go inv) fun d => apply (go' d) inv := by
  refine kindOf_follows inv.function fun k k' same => ?_
  rcases k with _ | _ | ⟨name, b | c⟩ <;> rcases k' with _ | _ | ⟨name', b' | c'⟩ <;>
    simp only [Kind.flatten, reduceCtorEq, Kind.function.injEq, Code.native.injEq,
      Code.closure.injEq, and_false] at same
  · exact .stop _
  · exact .stop _
  · obtain ⟨rfl, rfl⟩ := same
    exact callNative_follows b inv
  · obtain ⟨rfl, closures⟩ := same
    exact callClosure_follows parts name closures inv

/-- Expressions of the same form follow each other if their parts do. -/
theorem step_follows (scope : Ref) {e e' : Expr}
    (form : e.Matches Eq (fun a b => a.flatten = b.flatten) e') :
    Follows SameFlat (step go scope e) fun d => step (go' d) scope e' := by
  cases form with
  | literal v => exact .pure _
  | block _ body => exact (evalAll_follows parts scope body).bind fun _ => .pure _
  | access x => exact lookup_follows scope x
  | assign mode x lines value =>
    cases lines
    exact evalAssign_follows parts scope _ mode x value
  | function name parameters lines body =>
    cases lines
    exact evalFunction_follows scope _ name parameters body
  | call lines callee arguments =>
    cases lines
    refine (parts scope _ _ callee).bind fun v => ?_
    refine (expectFunction_follows v _).bind fun f => ?_
    exact (evalAll_follows parts scope arguments).bind fun vs => apply_follows parts _
  | leave _ value => exact (parts scope _ _ value).bind fun v => .stop _
  | conditional _ condition yes no =>
    refine (parts scope _ _ condition).bind fun v => ?_
    split
    · exact parts scope _ _ yes
    · exact parts scope _ _ no
  | object _ properties =>
    refine (alloc_follows rfl).bind fun r => ?_
    exact (evalProperties_follows parts scope r properties).bind fun _ => .pure _
  | field x lines receiver =>
    cases lines
    refine (parts scope _ _ receiver).bind fun v => ?_
    exact (expectObject_follows v _).bind fun r => lookup_follows r x
  | setField x lines receiver value =>
    cases lines
    refine (parts scope _ _ receiver).bind fun v => ?_
    refine (expectObject_follows v _).bind fun r => ?_
    refine (parts scope _ _ value).bind fun u => ?_
    exact (register_follows r x u).bind fun _ => .pure _
  | method x lines receiver arguments =>
    cases lines
    refine (parts scope _ _ receiver).bind fun v => ?_
    refine (expectObject_follows v _).bind fun r => ?_
    refine (lookup_follows r x).bind fun callee => ?_
    refine (expectFunction_follows callee _).bind fun f => ?_
    exact (evalAll_follows parts scope arguments).bind fun vs => apply_follows parts _

end

/-- Expressions that become the same when they are flattened follow each other, in worlds that do. -/
theorem evaluate_follows [Sink σ] (depth : Nat) (scope : Ref) {e e' : Expr}
    (same : e.flatten = e'.flatten) :
    Follows SameFlat (evaluate depth scope e : Action Builtin σ Value) fun d =>
      evaluate d scope e' := by
  induction depth generalizing scope e e' with
  | zero => exact fun _ _ _ finished => absurd rfl finished
  | succ depth ih =>
    refine .later ?_
    rcases Expr.flatten_eq_cases same with ⟨l, body, body', rfl, rfl, leaves⟩ | form
    · simp only [evaluate, step_block]
      refine .bind ?_ fun _ => .pure _
      refine .of_within (runAll_leavesAll_within fun e _ => leaves_within depth scope e) ?_
      refine .trans (runAll_follows (fun scope e e' => ih scope) scope leaves) fun d => ?_
      exact runAll_leavesAll_follows fun e _ => leaves_follows d scope e
    · exact step_follows (fun scope e e' => ih scope) scope form

end Eval
end Lisplet
