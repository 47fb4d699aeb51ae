import Lisplet.Eval.Evaluator
import Lisplet.Proofs.Eval.Native
import Lisplet.Proofs.Object.Chain
/-!
Evaluation keeps to its realm. An action is safe if it takes allowed steps only, whatever its ending,
never gets stuck, and leaves values that may be held, and if all of this depends on nothing but what
is known: in worlds that agree on that it does the same. There is one rule for each way to put actions
together, and then one lemma for each function of the evaluator, given an evaluator that is safe on
the parts; the evaluator itself is safe by induction on the depth (`evaluate_careful`).
-/
namespace Lisplet

open Lisplet.Action

variable {ν σ α β : Type} [Sink σ] {c : Realm} {own : Ref → Prop} {w w' : World ν σ}

namespace Realm

/-- From this world on, the action takes allowed steps only and leaves what is wanted. It does the same
in all worlds that agree on what is known. -/
structure Safe (c : Realm) (own : Ref → Prop) (w : World ν σ) (m : Action ν σ α)
    (post : Heap ν → α → Prop) : Prop where
  run : c.Run own w (m w).2
  leaves : c.Leaves (m w).2.heap (post (m w).2.heap) (m w).1
  blind : ∀ x, w.AgreeOn c.known x → (m x).1 = (m w).1 ∧ (m w).2.AgreeOn c.known (m x).2

namespace Safe

variable {post : Heap ν → α → Prop}

theorem pure {a : α} (h : post w.heap a) : c.Safe own w (Pure.pure a) post :=
  ⟨.refl, h, fun _ agree => ⟨rfl, agree⟩⟩

theorem stop {e : Ending} (h : c.Ends w.heap e) : c.Safe own w (Action.stop e) post :=
  ⟨.refl, h, fun _ agree => ⟨rfl, agree⟩⟩

theorem mono {own' : Ref → Prop} {m : Action ν σ α} (h : c.Safe own w m post)
    (weaker : ∀ r, own r → own' r) : c.Safe own' w m post := ⟨h.run.mono weaker, h.leaves, h.blind⟩

/-- An action is judged by what it does in this world, if it does the same in those that agree. -/
theorem of_eq {m : Action ν σ α} {r : Except Ending α} (hm : m w = (r, w')) (run : c.Run own w w')
    (leaves : c.Leaves w'.heap (post w'.heap) r)
    (blind : ∀ x, w.AgreeOn c.known x → ∃ x', m x = (r, x') ∧ w'.AgreeOn c.known x') :
    c.Safe own w m post := by
  refine ⟨?_, ?_, fun x agree => ?_⟩
  · rw [hm]
    exact run
  · rw [hm]
    exact leaves
  · obtain ⟨x', hx, after⟩ := blind x agree
    rw [hm, hx]
    exact ⟨rfl, after⟩

theorem exists_agree {m : Action ν σ α} (h : c.Safe own w m post) {r : Except Ending α}
    (hm : m w = (r, w')) {x : World ν σ} (agree : w.AgreeOn c.known x) :
    ∃ x', m x = (r, x') ∧ w'.AgreeOn c.known x' := by
  obtain ⟨same, after⟩ := h.blind x agree
  rw [hm] at same after
  exact ⟨(m x).2, Prod.ext same rfl, after⟩

/-- One action after the other. The second starts in the world that the first leaves. -/
theorem bind {m : Action ν σ α} {f : α → Action ν σ β} {post' : Heap ν → β → Prop}
    (first : c.Safe own w m post)
    (next : ∀ a w', c.Run own w w' → post w'.heap a → c.Safe own w' (f a) post') :
    c.Safe own w (m >>= f) post' := by
  have run := first.run
  have leaves := first.leaves
  rcases hm : m w with ⟨_ | a, w'⟩
  · rw [hm] at run leaves
    refine .of_eq (run_bind_error hm f) run leaves fun x agree => ?_
    obtain ⟨x', hx, after⟩ := first.exists_agree hm agree
    exact ⟨x', run_bind_error hx f, after⟩
  · rw [hm] at run leaves
    have second := next a w' run leaves
    refine .of_eq (run_bind_ok hm f) (run.trans second.run) second.leaves fun x agree => ?_
    obtain ⟨x', hx, after⟩ := first.exists_agree hm agree
    obtain ⟨x'', hx', later⟩ := second.exists_agree rfl after
    exact ⟨x'', (run_bind_ok hx f).trans hx', later⟩

theorem alloc {o : Object ν} (admits : c.Admits w.heap ⟨w.heap.objects.size⟩ o) :
    c.Safe own w (Action.alloc o)
      fun h r => r.index = w.heap.objects.size ∧ h.get? r = some o :=
  ⟨.single (.alloc w o admits), ⟨rfl, w.heap.get?_alloc o⟩, fun _ agree =>
    ⟨congrArg (Except.ok ∘ Ref.mk) agree.size, agree.alloc o⟩⟩

theorem register {r : Ref} (here : r.index < w.heap.objects.size)
    (target : own r ∨ ¬ c.quiet ∧ c.Holds w.heap (.object r)) {v : Value}
    (value : c.Holds w.heap v) (name : String) :
    c.Safe own w (Action.register r name v) fun _ _ => True := by
  refine .of_eq (if_pos here) (.single (.register w r name v target value)) trivial fun x agree => ?_
  exact ⟨_, if_pos (agree.size ▸ here), agree.register r name v⟩

theorem kindOf {r : Ref} {o : Object ν} (ho : w.heap.get? r = some o) (known : c.known r) :
    c.Safe own w (Action.kindOf r) fun _ kind => kind = o.kind := by
  have found : Action.kindOf r w = (.ok o.kind, w) := by rw [Action.kindOf, ho]
  refine .of_eq found .refl rfl fun x agree => ⟨x, ?_, agree⟩
  rw [Action.kindOf, agree.get? r known, ho]

/-- Where a `return` is caught, its value is one of the results. -/
theorem catchReturn {m : Action ν σ Value} (h : c.Safe own w m c.Holds) :
    c.Safe own w (Action.catchReturn m) c.Holds := by
  have run := h.run
  have leaves := h.leaves
  rcases hm : m w with ⟨e | v, w'⟩
  · rw [hm] at run leaves
    cases e with
    | returned v =>
      refine .of_eq (r := .ok v) (by rw [Action.catchReturn, hm]) run leaves fun x agree => ?_
      obtain ⟨x', hx, after⟩ := h.exists_agree hm agree
      exact ⟨x', by rw [Action.catchReturn, hx], after⟩
    | failed | exhausted | stuck =>
      refine .of_eq (by rw [Action.catchReturn, hm]) run leaves fun x agree => ?_
      obtain ⟨x', hx, after⟩ := h.exists_agree hm agree
      exact ⟨x', by rw [Action.catchReturn, hx], after⟩
  · rw [hm] at run leaves
    refine .of_eq (by rw [Action.catchReturn, hm]) run leaves fun x agree => ?_
    obtain ⟨x', hx, after⟩ := h.exists_agree hm agree
    exact ⟨x', by rw [Action.catchReturn, hx], after⟩

end Safe

theorem Sound.ordered {h : Heap ν} (sound : c.Sound h) : h.Ordered :=
  fun r o ho => (sound.objects r o ho).older

/-- What a known object delegates to is known. -/
theorem Sound.known_of_chain {h : Heap ν} (sound : c.Sound h) {r : Ref} {rs : List Ref}
    (chain : h.Chain r rs) (known : c.known r) : ∀ q ∈ rs, c.known q := by
  induction chain with
  | last => exact List.forall_mem_singleton.mpr known
  | @link r p o rs here parent _ ih =>
    have above := (sound.objects r o here).scopes p (by simp [Object.scopes, parent])
    exact List.forall_mem_cons.mpr ⟨known, ih (above.2 known)⟩

/-- In a sound heap every name has a value in every object, and it may be held. -/
theorem Sound.lookup? {h : Heap ν} (sound : c.Sound h) {r : Ref} (here : r.index < h.objects.size)
    (known : c.known r) (name : String) : ∃ v, h.lookup? r name = some v ∧ c.Holds h v := by
  obtain ⟨rs, chain⟩ := sound.ordered.exists_chain here
  refine ⟨_, Heap.lookup?_eq_of_chain sound.ordered chain name, ?_⟩
  have all := sound.known_of_chain chain known
  cases found : rs.findSome? (h.own? name) with
  | none => exact ⟨trivial, trivial⟩
  | some v =>
    obtain ⟨q, hq, own⟩ := List.exists_of_findSome?_eq_some found
    obtain ⟨o, ho, entry⟩ := Heap.own?_eq_some own
    have value := (sound.objects q o ho).values _ entry
    exact ⟨value.1, value.2 (all q hq)⟩

theorem Safe.lookup (sound : c.Sound w.heap) {r : Ref} (here : r.index < w.heap.objects.size)
    (known : c.known r) (name : String) : c.Safe own w (Action.lookup r name) c.Holds := by
  obtain ⟨v, found, held⟩ := sound.lookup? here known name
  obtain ⟨rs, chain⟩ := sound.ordered.exists_chain here
  have all := sound.known_of_chain chain known
  have given : Action.lookup r name w = (.ok v, w) := by rw [Action.lookup, found]
  refine .of_eq given .refl held fun x agree => ⟨x, ?_, agree⟩
  have same : x.heap.lookup? r name = w.heap.lookup? r name :=
    Heap.lookupWithin_congr chain (fun q hq => agree.get? q (all q hq)) name _
  rw [Action.lookup, same, found]

/-- An evaluation in the scope may start: the heap is sound, the scope is one and known, and there
are `n` objects at least. -/
structure Ready (c : Realm) (scope : Ref) (n : Nat) (h : Heap ν) : Prop where
  sound : c.Sound h
  isScope : h.IsScope scope
  known : c.known scope
  size : n ≤ h.objects.size

/-- The object is not among the first `n`. -/
def New (n : Nat) (r : Ref) : Prop := n ≤ r.index

/-- An evaluation owns its scope and all that is new. -/
def Owned (scope : Ref) (n : Nat) (r : Ref) : Prop := r = scope ∨ New n r

theorem Ready.here {scope : Ref} {n : Nat} {h : Heap ν} (ready : c.Ready scope n h) :
    scope.index < h.objects.size := ready.isScope.here

theorem Ready.run {scope : Ref} {n : Nat} (ready : c.Ready scope n w.heap) (run : c.Run own w w') :
    c.Ready scope n w'.heap :=
  ⟨run.sound ready.sound, ready.isScope.mono run.grows, ready.known,
    Nat.le_trans ready.size run.grows.size_le⟩

/-- Wherever it may start, the evaluator is safe and gives values that may be held. -/
def Careful (c : Realm) (go : Ref → Expr → Action ν σ Value) : Prop :=
  ∀ scope e n (w : World ν σ), c.Ready scope n w.heap → (c.quiet → e.WritesNoField) →
    c.Safe (Owned scope n) w (go scope e) c.Holds

end Realm

namespace Eval

open Realm

section
variable {go : Ref → Expr → Action ν σ Value} (careful : c.Careful go) {scope : Ref} {n : Nat}
include careful

theorem evalAll_safe (ready : c.Ready scope n w.heap) {es : List Expr}
    (calm : ∀ e ∈ es, c.quiet → e.WritesNoField) :
    c.Safe (Owned scope n) w (evalAll go scope es) fun h vs => ∀ v ∈ vs, c.Holds h v := by
  induction es generalizing w with
  | nil => exact .pure (by simp)
  | cons e es ih =>
    refine (careful scope e n w ready (calm e (by simp))).bind fun v w₁ run₁ held => ?_
    have tail := ih (ready.run run₁) fun e he => calm e (List.mem_cons_of_mem _ he)
    refine tail.bind fun vs w₂ run₂ all => .pure ?_
    exact List.forall_mem_cons.mpr ⟨held.mono run₂.grows, all⟩

theorem evalProperties_safe (ready : c.Ready scope n w.heap) {object : Ref}
    (new : New n object) (here : object.index < w.heap.objects.size)
    {properties : List (String × Expr)} (calm : ∀ p ∈ properties, c.quiet → p.2.WritesNoField) :
    c.Safe (Owned scope n) w (evalProperties go scope object properties) fun _ _ => True := by
  induction properties generalizing w with
  | nil => exact .pure trivial
  | cons p ps ih =>
    refine (careful scope p.2 n w ready (calm p (by simp))).bind fun v w₁ run₁ held => ?_
    have here₁ := Nat.lt_of_lt_of_le here run₁.grows.size_le
    refine (Safe.register here₁ (.inl (.inr new)) held p.1).bind fun _ w₂ run₂ _ => ?_
    refine ih ((ready.run run₁).run run₂) (Nat.lt_of_lt_of_le here₁ run₂.grows.size_le) ?_
    exact fun q hq => calm q (List.mem_cons_of_mem _ hq)

end

theorem bindParameters_safe {scope : Ref} (mine : own scope)
    (here : scope.index < w.heap.objects.size) {parameters : List String} {arguments : List Value}
    (count : arguments.length = parameters.length) (held : ∀ v ∈ arguments, c.Holds w.heap v) :
    c.Safe own w (bindParameters scope parameters arguments) fun _ _ => True := by
  induction parameters generalizing arguments w with
  | nil =>
    obtain rfl := List.length_eq_zero_iff.mp count
    exact .pure trivial
  | cons p ps ih =>
    cases arguments with
    | nil => cases count
    | cons v vs =>
      have first := Safe.register here (.inl mine) (held v (by simp)) p
      refine first.bind fun _ w₁ run₁ _ => ih (Nat.lt_of_lt_of_le here run₁.grows.size_le) ?_ ?_
      · exact Nat.succ.inj count
      · exact fun u hu => (held u (List.mem_cons_of_mem _ hu)).mono run₁.grows

/-- A closure of a sound heap is called in a scope of its own, so nothing that was there before is
owned. -/
theorem callClosure_safe {go : Ref → Expr → Action ν σ Value} (careful : c.Careful go)
    (sound : c.Sound w.heap) {n : Nat} (size : n ≤ w.heap.objects.size) {name : String}
    {closure : Closure} (scope : w.heap.IsScope closure.scope) (known : c.known closure.scope)
    (calm : c.quiet → closure.body.WritesNoField) {inv : Invocation}
    (receiver : c.Holds w.heap inv.receiver) (arguments : ∀ v ∈ inv.arguments, c.Holds w.heap v) :
    c.Safe (New n) w (callClosure go name closure inv) c.Holds := by
  unfold callClosure
  by_cases count : inv.arguments.length = closure.parameters.length
  · rw [if_pos count]
    have admits : c.Admits w.heap ⟨w.heap.objects.size⟩
        { kind := .environment, parent := some closure.scope } :=
      .new rfl (by simp [Object.scopes, Kind.closure?, scope, known]) (by simp)
        (by simp [Kind.closure?])
    refine (Safe.alloc admits).bind ?_
    rintro r w₁ run₁ ⟨new, created⟩
    have mine : New n r := Nat.le_trans size (Nat.le_of_eq new.symm)
    have here₁ := Heap.lt_size_of_get? created
    have this := Safe.register here₁ (.inl mine) (receiver.mono run₁.grows) "this"
    refine this.bind fun _ w₂ run₂ _ => ?_
    have g₂ := run₁.grows.trans run₂.grows
    have here₂ := Nat.lt_of_lt_of_le here₁ run₂.grows.size_le
    have bound := bindParameters_safe mine here₂ count fun v hv => (arguments v hv).mono g₂
    refine bound.bind fun _ w₃ run₃ _ => .catchReturn ?_
    have g₃ := g₂.trans run₃.grows
    have known : c.known r := c.known_new r (new ▸ sound.base_le)
    have isScope : w₁.heap.IsScope r := ⟨_, created, rfl⟩
    have ready : c.Ready r n w₃.heap :=
      ⟨((run₁.trans run₂).trans run₃).sound sound, isScope.mono (run₂.trans run₃).grows, known,
        Nat.le_trans size g₃.size_le⟩
    -- The body owns the scope of the call and what it creates, and all of that is new.
    refine (careful r closure.body n w₃ ready calm).mono ?_
    rintro q (rfl | new)
    · exact mine
    · exact new
  · rw [if_neg count]
    exact .stop (by simp [Ends, Fault.values])

theorem callNative_safe {w : World Builtin σ} (sound : c.Sound w.heap) (b : Builtin)
    {inv : Invocation} (arguments : ∀ v ∈ inv.arguments, c.Holds w.heap v) :
    c.Safe own w (callNative b inv) c.Holds := by
  cases b with
  | print =>
    obtain ⟨texts, shown⟩ := exists_mapM_eq_some fun v hv => exists_text? sound (arguments v hv).1
    have reply : ∀ x : World Builtin σ, inv.arguments.mapM x.heap.text? = some texts →
        callNative Builtin.print inv x =
          (.ok .undefined, { x with sink := Sink.writeln x.sink (" ".intercalate texts) }) := by
      intro x shown
      simp [callNative, Native.call, Builtin.call, Builtin.miscount?, Builtin.arity?,
        Builtin.perform, shown]
    refine .of_eq (reply w shown) (.single (.print w _)) ⟨trivial, trivial⟩ fun x agree => ?_
    have same := mapM_congr fun v hv => text?_eq_of_known sound agree.get? (arguments v hv)
    exact ⟨_, reply x (same.trans shown), by rw [agree.sink], agree.size, agree.get?⟩
  | operator op =>
    have leaves := Builtin.operator_leaves arguments op
    have same : ∀ x : World Builtin σ, callNative (.operator op) inv x =
        ((Builtin.call (.operator op) inv w.heap).result, x) := by
      intro x
      simp only [callNative, Native.call, Builtin.call]
      split <;> rfl
    exact .of_eq (same w) .refl leaves fun x agree => ⟨x, same x, agree⟩

theorem expectFunction_safe {v : Value} (held : c.Holds w.heap v) (line : Nat) :
    c.Safe own w (expectFunction v line) fun h r => v = .object r ∧ h.IsFunction r := by
  have wrong : ∀ {w' : World ν σ}, w.heap.Grows w'.heap →
      ∀ u ∈ (Fault.invalidCallee v).values, c.Holds w'.heap u :=
    fun g => List.forall_mem_singleton.mpr (held.mono g)
  cases v with
  | object r =>
    obtain ⟨o, ho, -⟩ := held.1
    refine (Safe.kindOf ho held.2).bind fun kind w₁ run₁ same => ?_
    by_cases function : kind.isFunction = true
    · rw [if_pos function]
      have isFunction : w.heap.IsFunction r := ⟨o, ho, same ▸ function⟩
      exact .pure ⟨rfl, isFunction.mono run₁.grows⟩
    · rw [if_neg function]
      exact .stop (wrong run₁.grows)
  | undefined | integer | string => exact .stop (wrong (.refl _))

theorem expectObject_safe {v : Value} (held : c.Holds w.heap v) (line : Nat) :
    c.Safe own w (expectObject v line) fun _ r => v = .object r := by
  cases v with
  | object r => exact .pure rfl
  | undefined | integer | string => exact .stop (List.forall_mem_singleton.mpr held)

/-- A function remembers the scope it is defined in, and that scope owns its name. -/
theorem evalFunction_safe {scope : Ref} {n : Nat} (ready : c.Ready scope n w.heap) {body : Expr}
    (calm : c.quiet → body.WritesNoField) (line : Nat) (name : Option String)
    (parameters : List String) :
    c.Safe (Owned scope n) w (evalFunction scope line name parameters body) c.Holds := by
  have admits : c.Admits w.heap ⟨w.heap.objects.size⟩
      { kind := .function (name.getD "lambda") (.closure { line, parameters, body, scope }) } :=
    .new rfl (by simp [Object.scopes, Kind.closure?, ready.isScope, ready.known]) (by simp)
      (by simpa [Kind.closure?] using calm)
  refine (Safe.alloc admits).bind ?_
  rintro r w₁ run₁ ⟨new, created⟩
  have held : c.Holds w₁.heap (.object r) :=
    .new created (by simp) (new ▸ ready.sound.base_le)
  cases name with
  | none => exact .pure held
  | some x =>
    have mine : Owned scope n scope := .inl rfl
    have named := Safe.register (ready.run run₁).here (.inl mine) held x
    exact named.bind fun _ w₂ run₂ _ => .pure (held.mono run₂.grows)

section
variable {w w' : World Builtin σ} {go : Ref → Expr → Action Builtin σ Value} (careful : c.Careful go)
  {scope : Ref} {n : Nat}
include careful

/-- A call of a function with values that may be held owns only what it creates. -/
theorem apply_safe (sound : c.Sound w.heap) (size : n ≤ w.heap.objects.size) {inv : Invocation}
    (function : w.heap.IsFunction inv.function) (known : c.known inv.function)
    (receiver : c.Holds w.heap inv.receiver) (arguments : ∀ v ∈ inv.arguments, c.Holds w.heap v) :
    c.Safe (New n) w (apply go inv) c.Holds := by
  obtain ⟨o, ho, isFunction⟩ := function
  refine (Safe.kindOf ho known).bind fun kind w₁ run₁ same => ?_
  have g := run₁.grows
  have sound₁ := run₁.sound sound
  have held := fun v hv => (arguments v hv).mono g
  split
  · exact callNative_safe sound₁ _ held
  · next name closure =>
    have admits := sound.objects _ o ho
    have hclosure : closure ∈ o.kind.closure? := by simp [← same, Kind.closure?]
    have outer := admits.scopes closure.scope (by simp [Object.scopes, Option.mem_def.mp hclosure])
    exact callClosure_safe careful sound₁ (Nat.le_trans size g.size_le) (outer.1.mono g)
      (outer.2 known) (fun quiet => admits.calm quiet closure hclosure) (receiver.mono g) held
  · next notNative notClosure =>
    rw [← same] at isFunction
    rcases kind with _ | _ | ⟨name, native | closure⟩
    · cases isFunction
    · cases isFunction
    · exact absurd rfl (notNative name native)
    · exact absurd rfl (notClosure name closure)

theorem evalAssign_safe (ready : c.Ready scope n w.heap) {value : Expr}
    (calm : c.quiet → value.WritesNoField) (line : Nat) (mode : AssignMode) (name : String) :
    c.Safe (Owned scope n) w (evalAssign go scope line mode name value) c.Holds := by
  refine (Safe.lookup ready.sound ready.here ready.known name).bind fun known w₁ run₁ _ => ?_
  have ready₁ := ready.run run₁
  split
  · exact .stop (by simp [Ends, Fault.values])
  · exact .stop (by simp [Ends, Fault.values])
  · refine (careful scope value n w₁ ready₁ calm).bind fun v w₂ run₂ held => ?_
    have here := (ready₁.run run₂).here
    refine (Safe.register here (.inl (.inl rfl)) held name).bind fun _ w₃ _ _ => .pure ?_
    exact ⟨trivial, trivial⟩

/-- If the evaluator is safe on the parts of an expression it is safe on the expression. -/
theorem step_safe (ready : c.Ready scope n w.heap) {e : Expr} (still : c.quiet → e.WritesNoField) :
    c.Safe (Owned scope n) w (step go scope e) c.Holds := by
  have calm : ∀ p ∈ e.parts, c.quiet → p.WritesNoField := fun p hp quiet => (still quiet).part hp
  have undefined : ∀ {w' : World Builtin σ}, c.Holds w'.heap .undefined := ⟨trivial, trivial⟩
  cases e with
  | literal l v =>
    refine .pure ?_
    cases v <;> exact ⟨trivial, trivial⟩
  | block l body =>
    exact (evalAll_safe careful ready calm).bind fun _ _ _ _ => .pure undefined
  | access l x => exact .lookup ready.sound ready.here ready.known x
  | assign l mode x value =>
    exact evalAssign_safe careful ready (calm value (by simp [Expr.parts])) l mode x
  | function l name parameters body =>
    exact evalFunction_safe ready (calm body (by simp [Expr.parts])) l name parameters
  | call l callee arguments =>
    have operand := careful scope callee n w ready (calm callee (by simp [Expr.parts]))
    refine operand.bind fun v w₁ run₁ held => ?_
    refine (expectFunction_safe held l).bind ?_
    rintro f w₂ run₂ ⟨rfl, function⟩
    have ready₂ := (ready.run run₁).run run₂
    refine (evalAll_safe careful ready₂ fun e he => calm e (by simp [Expr.parts, he])).bind
      fun vs w₃ run₃ all => ?_
    have ready₃ := ready₂.run run₃
    have called : c.Safe (New n) w₃ (apply go ⟨f, .undefined, vs, l⟩) c.Holds :=
      apply_safe careful ready₃.sound ready₃.size (function.mono run₃.grows) held.2 undefined all
    exact called.mono fun _ => .inr
  | leave l value =>
    have operand := careful scope value n w ready (calm value (by simp [Expr.parts]))
    exact operand.bind fun v w₁ _ held => .stop held
  | conditional l condition yes no =>
    have operand := careful scope condition n w ready (calm condition (by simp [Expr.parts]))
    refine operand.bind fun v w₁ run₁ _ => ?_
    split
    · exact careful scope yes n w₁ (ready.run run₁) (calm yes (by simp [Expr.parts]))
    · exact careful scope no n w₁ (ready.run run₁) (calm no (by simp [Expr.parts]))
  | object l properties =>
    have admits : c.Admits w.heap ⟨w.heap.objects.size⟩ { kind := .plain } :=
      .new rfl (by simp [Object.scopes, Kind.closure?]) (by simp) (by simp [Kind.closure?])
    refine (Safe.alloc admits).bind ?_
    rintro r w₁ run₁ ⟨new, created⟩
    have held : c.Holds w₁.heap (.object r) :=
      .new created (by simp) (new ▸ ready.sound.base_le)
    have fresh : New n r := Nat.le_trans ready.size (Nat.le_of_eq new.symm)
    refine (evalProperties_safe careful (ready.run run₁) fresh (Heap.lt_size_of_get? created)
      fun p hp => calm p.2 (List.mem_map_of_mem hp)).bind fun _ w₂ run₂ _ => ?_
    exact .pure (held.mono run₂.grows)
  | field l receiver x =>
    have operand := careful scope receiver n w ready (calm receiver (by simp [Expr.parts]))
    refine operand.bind fun v w₁ run₁ held => ?_
    refine (expectObject_safe held l).bind fun r w₂ run₂ same => ?_
    subst same
    obtain ⟨⟨o, ho, -⟩, known⟩ := held.mono run₂.grows
    exact .lookup ((ready.run run₁).run run₂).sound (Heap.lt_size_of_get? ho) known x
  | setField l receiver x value =>
    -- The receiver need not be owned: setting its property is what a quiet realm rules out.
    have loud : ¬ c.quiet := by
      intro quiet
      cases (still quiet).top
    have operand := careful scope receiver n w ready (calm receiver (by simp [Expr.parts]))
    refine operand.bind fun v w₁ run₁ held => ?_
    refine (expectObject_safe held l).bind fun r w₂ run₂ same => ?_
    subst same
    have ready₂ := (ready.run run₁).run run₂
    refine (careful scope value n w₂ ready₂ (calm value (by simp [Expr.parts]))).bind
      fun u w₃ run₃ heldu => ?_
    have target := held.mono (run₂.grows.trans run₃.grows)
    obtain ⟨o, ho, -⟩ := target.1
    refine (Safe.register (Heap.lt_size_of_get? ho) (.inr ⟨loud, target⟩) heldu x).bind ?_
    exact fun _ _ _ _ => .pure undefined
  | method l receiver x arguments =>
    have operand := careful scope receiver n w ready (calm receiver (by simp [Expr.parts]))
    refine operand.bind fun v w₁ run₁ held => ?_
    refine (expectObject_safe held l).bind fun r w₂ run₂ same => ?_
    subst same
    have ready₂ := (ready.run run₁).run run₂
    obtain ⟨⟨o, ho, -⟩, known⟩ := held.mono run₂.grows
    refine (Safe.lookup ready₂.sound (Heap.lt_size_of_get? ho) known x).bind
      fun callee w₃ run₃ heldf => ?_
    refine (expectFunction_safe heldf l).bind ?_
    rintro f w₄ run₄ ⟨rfl, function⟩
    have ready₄ := (ready₂.run run₃).run run₄
    refine (evalAll_safe careful ready₄ fun e he => calm e (by simp [Expr.parts, he])).bind
      fun vs w₅ run₅ all => ?_
    have ready₅ := ready₄.run run₅
    have target := held.mono (run₂.trans (run₃.trans (run₄.trans run₅))).grows
    have called : c.Safe (New n) w₅ (apply go ⟨f, .object r, vs, l⟩) c.Holds :=
      apply_safe careful ready₅.sound ready₅.size (function.mono run₅.grows) heldf.2 target all
    exact called.mono fun _ => .inr

end

/-- At every depth the evaluator is safe. -/
theorem evaluate_careful (depth : Nat) :
    c.Careful (evaluate depth : Ref → Expr → Action Builtin σ Value) := by
  induction depth with
  | zero => exact fun _ _ _ _ _ _ => .stop trivial
  | succ depth ih => exact fun scope e n w ready still => step_safe ih ready still

theorem invoke_safe {w : World Builtin σ} (sound : c.Sound w.heap) {n : Nat}
    (size : n ≤ w.heap.objects.size) {inv : Invocation} (function : c.Holds w.heap (.object inv.function))
    (receiver : c.Holds w.heap inv.receiver) (arguments : ∀ v ∈ inv.arguments, c.Holds w.heap v)
    (depth : Nat) : c.Safe (New n) w (invoke depth inv) c.Holds := by
  refine (expectFunction_safe function inv.line).bind ?_
  rintro f w₁ run₁ ⟨same, isFunction⟩
  cases same
  have g := run₁.grows
  exact apply_safe (evaluate_careful depth) (run₁.sound sound) (Nat.le_trans size g.size_le)
    isFunction function.2 (receiver.mono g) fun v hv => (arguments v hv).mono g

end Eval
end Lisplet
