import Lisplet.Proofs.Eval.Abrupt
import Lisplet.Proofs.Object.Entries
import Lisplet.Proofs.Session.Reach
/-!
Closures capture scopes, not values. A function keeps the scope that it was defined in, for as long as
the session lasts and whatever is evaluated in between (`Heap.IsClosure.mono`). A call creates a scope
under that one (`Heap.enter`), in which names are those of the parameters, `this`, and all that the
outer scope has at the time of the call (`Heap.CallScope`).
-/
namespace Lisplet

variable {ν σ : Type}

namespace Heap

/-- The reference names a function that is this closure and goes by this name. -/
def IsClosure (h : Heap ν) (r : Ref) (name : String) (c : Closure) : Prop :=
  ∃ o, h.get? r = some o ∧ o.kind = .function name (.closure c)

/-- The heap in which the body of a closure is evaluated when it is called. -/
def enter (h : Heap ν) (c : Closure) (inv : Invocation) : Heap ν :=
  (h.alloc { kind := .environment, parent := some c.scope }).2.registerAll ⟨h.objects.size⟩
    (("this", inv.receiver) :: c.parameters.zip inv.arguments)

/-- What the scope of a call is when the body is about to be evaluated, now that the heap is `h'`. At
the time of the call it was `h`. -/
structure CallScope (h h' : Heap ν) (outer : Ref) (parameters : List String) (inv : Invocation)
    (scope : Ref) : Prop where
  new : h.get? scope = none
  isScope : h'.IsScope scope
  others : ∀ r, r ≠ scope → h'.get? r = h.get? r
  /-- Nothing holds a reference to it. -/
  unreferenced : ∀ r, ¬ h'.Links r scope
  /-- Of parameters of one name the last one counts. -/
  parameter : ∀ i x, parameters[i]? = some x → x ∉ parameters.drop (i + 1) →
    ∃ v, inv.arguments[i]? = some v ∧ h'.lookup? scope x = some v
  this : "this" ∉ parameters → h'.lookup? scope "this" = some inv.receiver
  /-- All other names are what they are in the outer scope at the time of the call. -/
  free : ∀ x, x ∉ parameters → x ≠ "this" →
    ∃ v, h.lookup? outer x = some v ∧ h'.lookup? scope x = some v

/-- A function never becomes another one. -/
theorem IsClosure.mono {h h' : Heap ν} {r : Ref} {name : String} {c : Closure}
    (is : h.IsClosure r name c) (g : h.Grows h') : h'.IsClosure r name c := by
  obtain ⟨o, ho, kind⟩ := is
  obtain ⟨o', ho', later⟩ := g r o ho
  exact ⟨o', ho', later.kind.trans kind⟩

theorem IsClosure.isFunction {h : Heap ν} {r : Ref} {name : String} {c : Closure}
    (is : h.IsClosure r name c) : h.IsFunction r := by
  obtain ⟨o, ho, kind⟩ := is
  exact ⟨o, ho, by rw [kind]; rfl⟩

theorem get?_enter (h : Heap ν) (c : Closure) (inv : Invocation) (r : Ref) :
    (h.enter c inv).get? r =
      if r = ⟨h.objects.size⟩ then some
        { kind := .environment
          parent := some c.scope
          slots := (Slots.empty.insert "this" inv.receiver).insertAll
            (c.parameters.zip inv.arguments) }
      else h.get? r := by
  rw [enter, get?_registerAll, get?_alloc_eq_ite]
  by_cases here : r = ⟨h.objects.size⟩
  · simp [here]
  · simp [here, Ne.symm here]

/-- What a heap holds is older than the scope that a call adds to it. -/
theorem WellKept.not_links_enter {global : Ref} {h : Heap ν} (kept : h.WellKept global)
    {c : Closure} (outer : h.IsScope c.scope) {inv : Invocation}
    (has : ∀ v ∈ inv.operands, h.Has v) (r : Ref) :
    ¬ (h.enter c inv).Links r ⟨h.objects.size⟩ := by
  rintro ⟨o, ho, mem⟩
  rw [get?_enter] at ho
  by_cases here : r = ⟨h.objects.size⟩
  · rw [if_pos here] at ho
    obtain rfl := Option.some.inj ho
    rcases Object.mem_refs_iff.mp mem with ⟨x, hentry⟩ | scope
    · have given : .object ⟨h.objects.size⟩ ∈ inv.operands := by
        rcases Slots.mem_insertAll hentry with parameter | first
        · exact List.mem_cons_of_mem _ (List.of_mem_zip parameter).2
        · rcases Slots.mem_insert first with same | none
          · exact (Prod.mk.inj same).2 ▸ List.mem_cons_self
          · cases none
      exact Nat.lt_irrefl _ (has _ given)
    · have same : ⟨h.objects.size⟩ = c.scope := by
        simpa [Object.scopes, Kind.closure?] using scope
      exact Nat.lt_irrefl _ (same ▸ outer.here)
  · rw [if_neg here] at ho
    exact Nat.lt_irrefl _ (kept.references r o ho _ mem)

theorem WellKept.callScope {global : Ref} {h : Heap ν} (kept : h.WellKept global) {c : Closure}
    (outer : h.IsScope c.scope) {inv : Invocation} (has : ∀ v ∈ inv.operands, h.Has v)
    (count : inv.arguments.length = c.parameters.length) :
    h.CallScope (h.enter c inv) c.scope c.parameters inv ⟨h.objects.size⟩ := by
  have created := (h.get?_enter c inv ⟨h.objects.size⟩).trans (if_pos rfl)
  have others : ∀ r : Ref, r ≠ ⟨h.objects.size⟩ → (h.enter c inv).get? r = h.get? r :=
    fun r other => (h.get?_enter c inv r).trans (if_neg other)
  have old : ∀ r : Ref, r.index < h.objects.size → (h.enter c inv).get? r = h.get? r := by
    intro r hr
    refine others r ?_
    rintro rfl
    exact Nat.lt_irrefl _ hr
  have look := fun x => lookup?_newest kept.parents outer.here old created rfl x
  have unset : ∀ x, x ∉ c.parameters →
      x ∉ (c.parameters.zip inv.arguments).map (·.1) := by
    intro x hx
    rwa [List.map_fst_zip (Nat.le_of_eq count.symm)]
  refine ⟨by simp [get?], ⟨_, created, rfl⟩, others, kept.not_links_enter outer has, ?_, ?_, ?_⟩
  · intro i x here last
    obtain ⟨v, given, set⟩ := Slots.get?_insertAll_zip _ count here last
    refine ⟨v, given, ?_⟩
    rw [look, set]
    rfl
  · intro free
    rw [look, Slots.get?_insertAll_other _ (unset _ free), Slots.get?_insert_same]
    rfl
  · intro x free other
    obtain ⟨rs, chain⟩ := kept.finite c.scope outer.here
    have found := kept.lookups c.scope rs x chain
    refine ⟨_, found, ?_⟩
    rw [look, Slots.get?_insertAll_other _ (unset x free),
      Slots.get?_insert_other _ _ (Ne.symm other), Slots.get?_empty, found]
    rfl

end Heap

namespace Eval

open Lisplet.Action

/-- Parameters that are counted are set one after the other. -/
theorem run_bindParameters {w : World ν σ} {scope : Ref}
    (here : scope.index < w.heap.objects.size) {parameters : List String} {arguments : List Value}
    (count : arguments.length = parameters.length) :
    bindParameters scope parameters arguments w =
      (.ok (), { w with heap := w.heap.registerAll scope (parameters.zip arguments) }) := by
  induction parameters generalizing arguments w with
  | nil =>
    obtain rfl := List.length_eq_zero_iff.mp count
    rfl
  | cons p parameters ih =>
    obtain ⟨v, arguments, rfl⟩ := List.exists_cons_of_length_eq_add_one count
    have first := run_register here p v
    refine (run_bind_ok first _).trans ?_
    exact ih (by simpa [Heap.register] using here) (Nat.succ.inj count)

section
variable (go : Ref → Expr → Action ν σ Value) (name : String) {c : Closure} {inv : Invocation}

/-- A call with the right number of arguments evaluates the body in a new scope. -/
theorem run_callClosure (count : inv.arguments.length = c.parameters.length) (w : World ν σ) :
    callClosure go name c inv w =
      catchReturn (go ⟨w.heap.objects.size⟩ c.body) ⟨w.heap.enter c inv, w.sink⟩ := by
  rw [callClosure, if_pos count]
  refine (run_bind_ok rfl _).trans ?_
  have here : w.heap.objects.size <
      (w.heap.alloc { kind := .environment, parent := some c.scope }).2.objects.size := by
    simp [Heap.alloc]
  have this := run_register (w := ⟨_, w.sink⟩) (r := ⟨w.heap.objects.size⟩) here "this" inv.receiver
  refine (run_bind_ok this _).trans ?_
  refine (run_bind_ok (run_bindParameters ?_ count) _).trans rfl
  simpa [Heap.register] using here

/-- With any other number nothing is done but to complain about it. -/
theorem run_callClosure_of_ne (count : inv.arguments.length ≠ c.parameters.length)
    (w : World ν σ) : callClosure go name c inv w =
      (.error (.failed ⟨.arityMismatch name c.parameters.length inv.arguments.length, c.line⟩), w) := by
  rw [callClosure, if_neg count]
  rfl

end

/-- Evaluating a function creates it, with the scope that it is evaluated in, and sets its name there. -/
theorem run_evalFunction {w : World ν σ} {scope : Ref} (here : scope.index < w.heap.objects.size)
    (line : Nat) (name : Option String) (parameters : List String) (body : Expr) :
    ∃ w', evalFunction scope line name parameters body w =
        (.ok (.object ⟨w.heap.objects.size⟩), w') ∧
      w'.heap.IsClosure ⟨w.heap.objects.size⟩ (name.getD "lambda") ⟨line, parameters, body, scope⟩ ∧
      ∀ n ∈ name, w'.heap.own? n scope = some (.object ⟨w.heap.objects.size⟩) := by
  have created := w.heap.get?_alloc
    { kind := .function (name.getD "lambda") (.closure ⟨line, parameters, body, scope⟩) }
  have is : Heap.IsClosure _ _ _ _ := ⟨_, created, rfl⟩
  cases name with
  | none => exact ⟨_, rfl, is, by simp⟩
  | some n =>
    have here' : scope.index < (w.heap.alloc
        { kind := .function n (.closure ⟨line, parameters, body, scope⟩) }).2.objects.size :=
      Nat.lt_of_lt_of_le here (w.heap.grows_alloc _).size_le
    have named := run_register (w := ⟨_, w.sink⟩) here' n (.object ⟨w.heap.objects.size⟩)
    refine ⟨_, (run_bind_ok rfl _).trans ((run_bind_ok named _).trans rfl),
      is.mono (Heap.grows_register _ scope n _), fun m hm => ?_⟩
    obtain rfl := Option.mem_some_iff.mp hm
    exact Heap.own?_register_same here' n _

section
variable [Native ν] [Sink σ]

/-- To invoke a closure is to call it. -/
theorem run_invoke {w : World ν σ} {inv : Invocation} {name : String} {c : Closure}
    (is : w.heap.IsClosure inv.function name c) (depth : Nat) :
    invoke depth inv w = callClosure (evaluate depth) name c inv w := by
  refine (run_bind_ok (run_expectFunction is.isFunction _) _).trans ?_
  obtain ⟨o, ho, kind⟩ := is
  have known : kindOf inv.function w = (.ok (.function name (.closure c)), w) := by
    simp only [kindOf, ho, kind]
  exact run_bind_ok known _

end

end Eval

section
variable [Sink σ]

/-- Closures capture their scope by reference, for whole runs. Once a function has been defined in the
scope `D`, then in whatever session this one leads to, a call with the right number of arguments
evaluates the body in a new scope under `D` as `D` is by then. With any other number it fails, and
nothing has changed. -/
theorem closure_captures_scope {s : Session σ} (visited : s.Visited) {D : Ref}
    (isScope : s.world.heap.IsScope D) (depth line : Nat) (name : Option String)
    (parameters : List String) (body : Expr) :
    ∃ F w, Eval.evaluate (depth + 1) D (.function line name parameters body) s.world =
        (.ok (.object F), w) ∧
      (∀ n ∈ name, w.heap.own? n D = some (.object F)) ∧
      ∀ s' : Session σ, Session.Leads { s with world := w } s' →
      ∀ (depth' : Nat) (inv : Invocation), inv.function = F →
        (inv.arguments.length = parameters.length → (∀ v ∈ inv.operands, s'.world.heap.Has v) →
          ∃ S h, s'.world.heap.CallScope h D parameters inv S ∧
            Eval.invoke depth' inv s'.world =
              Action.catchReturn (Eval.evaluate depth' S body) ⟨h, s'.world.sink⟩) ∧
        (inv.arguments.length ≠ parameters.length →
          Eval.invoke depth' inv s'.world =
            (.error (.failed ⟨.arityMismatch (name.getD "lambda") parameters.length
              inv.arguments.length, line⟩), s'.world)) := by
  obtain ⟨w, defined, is, named⟩ :=
    Eval.run_evalFunction isScope.here line name parameters body
  have created : s.Leads { s with world := w } := by
    have run : (Eval.evaluate (depth + 1) D (.function line name parameters body) s.world).2 = w :=
      congrArg Prod.snd defined
    exact run ▸ Session.Leads.refl.evaluate (depth + 1) D _ isScope
  refine ⟨_, w, defined, named, ?_⟩
  intro s' leads depth' inv called
  have sound := created.sound visited.sound
  have call := Eval.run_invoke (called ▸ is.mono (leads.grows sound)) depth'
  have isScope' := isScope.mono ((created.grows visited.sound).trans (leads.grows sound))
  constructor
  · intro count has
    have kept := (leads.sound sound).wellKept
    exact ⟨_, _, kept.callScope isScope' has count, call.trans (Eval.run_callClosure _ _ count _)⟩
  · intro count
    exact call.trans (Eval.run_callClosure_of_ne _ _ count _)

end

/-- A function of two parameters of one name, called after `y` has been declared: the second argument
counts, `this` is the receiver, and `y` is seen. One argument is not enough. -/
theorem closure_sees_later_declaration :
    ∃ (F S : Ref) (h : Heap Builtin) (s : Session Transcript), s.Reachable ∧
      s.world.heap.own? "f" ⟨0⟩ = some (.object F) ∧
      h.lookup? S "x" = some (.integer 3) ∧ h.lookup? S "this" = some (.integer 9) ∧
      h.lookup? S "y" = some (.integer 2) ∧
      Eval.invoke 9 ⟨F, .integer 9, [.integer 1, .integer 3], 1⟩ s.world =
        Action.catchReturn (Eval.evaluate 9 S (.access 7 "y")) ⟨h, s.world.sink⟩ ∧
      Eval.invoke 9 ⟨F, .integer 9, [.integer 1], 1⟩ s.world =
        (.error (.failed ⟨.arityMismatch "f" 2 1, 7⟩), s.world) := by
  have reached := Session.Reachable.start Transcript.empty
  obtain ⟨F, w, defined, named, later⟩ := closure_captures_scope reached.visited
    (D := ⟨0⟩) ⟨_, rfl, rfl⟩ 8 7 (some "f") ["x", "x"] (.access 7 "y")
  have run : (Eval.evaluate 9 ⟨0⟩ (.function 7 (some "f") ["x", "x"] (.access 7 "y"))
    (Session.start Transcript.empty).world).2 = w := congrArg Prod.snd defined
  have isScope : w.heap.IsScope ⟨0⟩ := by
    subst run
    exact ⟨_, rfl, rfl⟩
  have first : Session.Reachable ⟨⟨0⟩, w⟩ := run ▸ reached.evaluate 9 ⟨0⟩ _ ⟨_, rfl, rfl⟩
  have leads := (Session.Leads.refl (s := ⟨⟨0⟩, w⟩)).evaluate 9 ⟨0⟩
    (.assign 8 .declare "y" (.literal 8 (.integer 2))) isScope
  generalize run' : (Eval.evaluate 9 ⟨0⟩ (.assign 8 .declare "y" (.literal 8 (.integer 2))) w).2 = w'
    at leads
  have second : Session.Reachable ⟨⟨0⟩, w'⟩ := run' ▸ first.evaluate 9 ⟨0⟩ _ isScope
  have kept : w'.heap.own? "f" ⟨0⟩ = w.heap.own? "f" ⟨0⟩ := by
    subst run' run
    decide +kernel
  have declared : w'.heap.lookup? ⟨0⟩ "y" = some (.integer 2) := by
    subst run' run
    decide +kernel
  have plain : ∀ v ∈ [Value.integer 9, .integer 1, .integer 3], w'.heap.Has v := by simp [Heap.Has]
  obtain ⟨S, h, inner, call⟩ :=
    (later _ leads 9 ⟨F, .integer 9, [.integer 1, .integer 3], 1⟩ rfl).1 rfl plain
  have refused := (later _ leads 9 ⟨F, .integer 9, [.integer 1], 1⟩ rfl).2 (by simp)
  obtain ⟨x, last, hx⟩ := inner.parameter 1 "x" rfl (by decide)
  obtain ⟨y, outside, hy⟩ := inner.free "y" (by decide) (by decide)
  refine ⟨F, S, h, ⟨⟨0⟩, w'⟩, second, kept.trans (named "f" rfl), hx.trans last.symm,
    inner.this (by decide), ?_, call, refused⟩
  exact hy.trans (outside.symm.trans declared)

end Lisplet
