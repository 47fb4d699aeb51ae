import Lisplet.Eval.Evaluator
import Lisplet.Proofs.Eval.Native
import Lisplet.Proofs.Expr.Parts
import Lisplet.Proofs.Object.Growth
/-!
Run-time errors tell the truth. What an error says about values is so in the heap that the failed
evaluation leaves, and the line that it names is that of an expression which could have failed in this
way (`EvalError.Truthful`). Such an expression stands in the form that was evaluated or in the body of a
function in the heap; a wrong number of arguments is reported where the function was defined, and that
may be in a form that was evaluated earlier.

So all functions in the heap must have been made from known expressions. Actions that keep this up,
take nothing from the heap and fail with truthful errors only are honest, and there is one rule for
each way to put them together; that the evaluator is honest follows by induction on the depth
(`evaluate_honest`).
-/
namespace Lisplet

variable {ν σ α β : Type}

/-- The expression calls a function, by itself or as a method. -/
def Expr.isCall : Expr → Bool
  | .call _ _ _ | .method _ _ _ _ => true
  | _ => false

/-- The expression is the one that such a function by this name was made from. -/
def Expr.Defines (n : Expr) (name : String) (c : Closure) : Prop :=
  ∃ given : Option String,
    n = .function c.line given c.parameters c.body ∧ given.getD "lambda" = name

namespace Heap

/-- There is such a function by this name in the heap. -/
def HasClosure (h : Heap ν) (name : String) (c : Closure) : Prop :=
  ∃ r o, h.get? r = some o ∧ o.kind = .function name (.closure c)

/-- The expression stands in the form or in the body of a function in the heap. -/
def Site (h : Heap ν) (form n : Expr) : Prop :=
  n ∈ form.nodes ∨ ∃ name c, h.HasClosure name c ∧ n ∈ c.body.nodes

/-- The functions in the heap were made from expressions of this sort. -/
def MadeFrom (source : Expr → Prop) (h : Heap ν) : Prop :=
  ∀ name c, h.HasClosure name c → ∃ n, source n ∧ n.Defines name c

end Heap

/-- The error is so in the heap, after `form` has been evaluated; functions were made from expressions
of the sort `source`. -/
def EvalError.Truthful (source : Expr → Prop) (form : Expr) (h : Heap ν) (err : EvalError) : Prop :=
  match err.fault with
  | .invalidCallee v => ∀ r, v = .object r → ¬ h.IsFunction r
  | .invalidReceiver v => ∀ r, v ≠ .object r
  | .nonNumerics a b => ¬ ∃ x y, a = .integer x ∧ b = .integer y
  | .nonComparable a b =>
    (¬ ∃ x y, a = .integer x ∧ b = .integer y) ∧ ¬ ∃ x y, a = .string x ∧ b = .string y
  | .arityMismatch name expected actual => expected ≠ actual ∧
    ((∃ n c, source n ∧ n.Defines name c ∧ h.HasClosure name c ∧ c.line = err.line ∧
        c.parameters.length = expected) ∨
      (∃ b ∈ Builtin.all, b.name = name ∧ b.arity? = some expected) ∧ expected = 2 ∧
        ∃ n, h.Site form n ∧ n.isCall = true ∧ n.line = err.line)
  | .unboundVariable x => ∃ value, h.Site form (.assign err.line .update x value)
  | .alreadyDeclared x => ∃ value, h.Site form (.assign err.line .declare x value)
  | .divisionByZero | .returnOutsideFunction => True

namespace Heap

variable {h h' : Heap ν} {source : Expr → Prop}

theorem HasClosure.mono {name : String} {c : Closure} (has : h.HasClosure name c)
    (g : h.Grows h') : h'.HasClosure name c := by
  obtain ⟨r, o, ho, kind⟩ := has
  obtain ⟨o', ho', later⟩ := g r o ho
  exact ⟨r, o', ho', later.kind.trans kind⟩

theorem Site.mono {form n : Expr} (site : h.Site form n) (g : h.Grows h') : h'.Site form n := by
  rcases site with inside | ⟨name, c, has, inside⟩
  · exact .inl inside
  · exact .inr ⟨name, c, has.mono g, inside⟩

theorem Site.part {form n p : Expr} (site : h.Site form n) (hp : p ∈ n.parts) : h.Site form p := by
  rcases site with inside | ⟨name, c, has, inside⟩
  · exact .inl (Expr.mem_nodes_of_part inside hp)
  · exact .inr ⟨name, c, has, Expr.mem_nodes_of_part inside hp⟩

theorem MadeFrom.alloc (made : h.MadeFrom source) {o : Object ν}
    (new : ∀ name c, o.kind = .function name (.closure c) → ∃ n, source n ∧ n.Defines name c) :
    (h.alloc o).2.MadeFrom source := by
  rintro name c ⟨r, p, hp, kind⟩
  rcases get?_alloc_eq_some hp with old | ⟨-, rfl⟩
  · exact made name c ⟨r, p, old, kind⟩
  · exact new name c kind

theorem MadeFrom.register (made : h.MadeFrom source) (r : Ref) (x : String) (v : Value) :
    (h.register r x v).MadeFrom source := by
  rintro name c ⟨p, o, ho, kind⟩
  rw [get?_register] at ho
  obtain ⟨o, ho', rfl⟩ := Option.map_eq_some_iff.mp ho
  refine made name c ⟨p, o, ho', ?_⟩
  split at kind
  · exact kind
  · exact kind

theorem MadeFrom.mono {source' : Expr → Prop} (made : h.MadeFrom source)
    (weaker : ∀ n, source n → source' n) : h.MadeFrom source' := by
  intro name c has
  obtain ⟨n, known, defines⟩ := made name c has
  exact ⟨n, weaker n known, defines⟩

end Heap

/-- What an evaluation draws on: the form that is evaluated, and expressions that functions are made
from, the form and all that stands in it among them. -/
structure Origin where
  form : Expr
  source : Expr → Prop
  source_form : source form
  source_part : ∀ {e p : Expr}, source e → p ∈ e.parts → source p

namespace Origin

variable {c : Origin}

theorem source_node {e n : Expr} (known : c.source e) (hn : n ∈ e.nodes) : c.source n := by
  induction e using Expr.inductionOnParts with
  | step e ih =>
    rw [Expr.nodes_eq_cons] at hn
    rcases List.mem_cons.mp hn with rfl | below
    · exact known
    · obtain ⟨p, hp, there⟩ := List.mem_flatMap.mp below
      exact ih p hp (c.source_part known hp) there

/-- Whatever can be evaluated is a known expression. -/
theorem source_of_site {h : Heap ν} (made : h.MadeFrom c.source) {n : Expr}
    (site : h.Site c.form n) : c.source n := by
  rcases site with inside | ⟨name, closure, has, inside⟩
  · exact source_node c.source_form inside
  · obtain ⟨_, known, given, rfl, -⟩ := made name closure has
    exact source_node (c.source_part known List.mem_cons_self) inside

/-- From this world on the action takes nothing from the heap, makes functions from known expressions
only, and fails with truthful errors only. -/
structure Honest (c : Origin) (w : World ν σ) (m : Action ν σ α) : Prop where
  grows : w.heap.Grows (m w).2.heap
  made : (m w).2.heap.MadeFrom c.source
  truthful : ∀ err, (m w).1 = .error (.failed err) → err.Truthful c.source c.form (m w).2.heap

namespace Honest

variable {w : World ν σ}

theorem of_run {m : Action ν σ α} {r : Except Ending α} {w' : World ν σ} (run : m w = (r, w'))
    (grows : w.heap.Grows w'.heap) (made : w'.heap.MadeFrom c.source)
    (truthful : ∀ err, r = .error (.failed err) → err.Truthful c.source c.form w'.heap) :
    c.Honest w m :=
  ⟨by rwa [run], by rwa [run], by rwa [run]⟩

theorem bind {m : Action ν σ α} {f : α → Action ν σ β} (first : c.Honest w m)
    (next : ∀ a w', w.heap.Grows w'.heap → w'.heap.MadeFrom c.source → c.Honest w' (f a)) :
    c.Honest w (m >>= f) := by
  obtain ⟨grows, made, truthful⟩ := first
  rcases hm : m w with ⟨e | a, w'⟩
  · rw [hm] at grows made truthful
    refine .of_run (Action.run_bind_error hm f) grows made fun err failed => truthful err ?_
    cases failed
    rfl
  · rw [hm] at grows made
    have later := next a w' grows made
    exact .of_run (Action.run_bind_ok hm f) (grows.trans later.grows) later.made later.truthful

theorem catchReturn {m : Action ν σ Value} (h : c.Honest w m) : c.Honest w (Action.catchReturn m) := by
  obtain ⟨grows, made, truthful⟩ := h
  rcases hm : m w with ⟨e | v, w'⟩
  · rw [hm] at grows made truthful
    cases e with
    | failed err => exact .of_run (by rw [Action.catchReturn, hm]) grows made truthful
    | returned | exhausted | stuck =>
      exact .of_run (by rw [Action.catchReturn, hm]) grows made (by simp)
  · rw [hm] at grows made
    exact .of_run (by rw [Action.catchReturn, hm]) grows made (by simp)

variable (made : w.heap.MadeFrom c.source)
include made

theorem pure (a : α) : c.Honest w (Pure.pure a) :=
  .of_run rfl (.refl _) made (by simp)

theorem stop {e : Ending} (other : ∀ err, e ≠ .failed err) :
    c.Honest w (Action.stop e : Action ν σ α) :=
  .of_run rfl (.refl _) made fun err same => absurd (Except.error.inj same) (other err)

theorem fail {fault : Fault} {line : Nat}
    (truthful : EvalError.Truthful c.source c.form w.heap ⟨fault, line⟩) :
    c.Honest w (Action.fail fault line : Action ν σ α) := by
  refine .of_run rfl (.refl _) made fun err failed => ?_
  cases failed
  exact truthful

theorem alloc {o : Object ν} (new : ∀ name closure, o.kind = .function name (.closure closure) →
    ∃ n, c.source n ∧ n.Defines name closure) : c.Honest w (Action.alloc o) :=
  .of_run rfl (w.heap.grows_alloc o) (made.alloc new) (by simp)

theorem register (r : Ref) (x : String) (v : Value) : c.Honest w (Action.register r x v) := by
  by_cases here : r.index < w.heap.objects.size
  · exact .of_run (if_pos here) (w.heap.grows_register r x v) (made.register r x v) (by simp)
  · exact .of_run (if_neg here) (.refl _) made (by simp)

theorem lookup (r : Ref) (x : String) : c.Honest w (Action.lookup r x) := by
  cases found : w.heap.lookup? r x with
  | none => exact .of_run (by rw [Action.lookup, found]) (.refl _) made (by simp)
  | some v => exact .of_run (by rw [Action.lookup, found]) (.refl _) made (by simp)

/-- The sort that is looked up is that of an object in the heap. -/
theorem kindOf_bind {r : Ref} {f : Kind ν → Action ν σ α}
    (next : ∀ o, w.heap.get? r = some o → c.Honest w (f o.kind)) :
    c.Honest w (Action.kindOf r >>= f) := by
  cases found : w.heap.get? r with
  | none =>
    have here : Action.kindOf r w = (.error (.stuck .dangling), w) := by rw [Action.kindOf, found]
    exact .of_run (Action.run_bind_error here f) (.refl _) made (by simp)
  | some o =>
    have here : Action.kindOf r w = (.ok o.kind, w) := by rw [Action.kindOf, found]
    obtain ⟨grows, made, truthful⟩ := next o found
    exact .of_run (Action.run_bind_ok here f) grows made truthful

end Honest
end Origin

theorem Operator.mem_all (op : Operator) : op ∈ Operator.all := by
  rcases op with (_ | _ | _ | _ | _) | (_ | _) | (_ | _ | _ | _) <;> decide

namespace Eval

open Origin

section
variable {c : Origin} {w : World ν σ} (made : w.heap.MadeFrom c.source)
include made

theorem expectFunction_honest (v : Value) (line : Nat) :
    c.Honest w (expectFunction v line : Action ν σ Ref) := by
  cases v with
  | object r =>
    refine .kindOf_bind made fun o ho => ?_
    split
    · exact .pure made r
    · next other =>
      refine .fail made ?_
      rintro _ ⟨⟩ ⟨p, hp, isFunction⟩
      cases ho.symm.trans hp
      exact other isFunction
  | undefined | integer | string => exact .fail made (by simp [EvalError.Truthful])

theorem expectObject_honest (v : Value) (line : Nat) :
    c.Honest w (expectObject v line : Action ν σ Ref) := by
  cases v with
  | object r => exact .pure made r
  | undefined | integer | string => exact .fail made (by simp [EvalError.Truthful])

theorem bindParameters_honest (scope : Ref) (parameters : List String) (arguments : List Value) :
    c.Honest w (bindParameters scope parameters arguments : Action ν σ Unit) := by
  induction parameters generalizing arguments w with
  | nil =>
    cases arguments with
    | nil => exact .pure made ()
    | cons => exact .stop made (by simp)
  | cons x xs ih =>
    cases arguments with
    | nil => exact .stop made (by simp)
    | cons v vs => exact (Honest.register made scope x v).bind fun _ w' _ made' => ih made' vs

theorem evalFunction_honest (scope : Ref) {line : Nat} {name : Option String}
    {parameters : List String} {body : Expr}
    (known : c.source (.function line name parameters body)) :
    c.Honest w (evalFunction scope line name parameters body : Action ν σ Value) := by
  refine (Honest.alloc made ?_).bind fun r w' _ made' => ?_
  · rintro _ _ ⟨⟩
    exact ⟨_, known, name, rfl, rfl⟩
  · cases name with
    | none => exact .pure made' _
    | some x => exact (Honest.register made' scope x _).bind fun _ _ _ made'' => .pure made'' _

end

/-- A builtin fails on the line of the call. -/
theorem callNative_honest [Sink σ] {c : Origin} {w : World Builtin σ}
    (made : w.heap.MadeFrom c.source) (b : Builtin) {inv : Invocation}
    (call : ∃ n, w.heap.Site c.form n ∧ n.isCall = true ∧ n.line = inv.line) :
    c.Honest w (callNative b inv : Action Builtin σ Value) := by
  cases b with
  | print =>
    cases shown : inv.arguments.mapM w.heap.text? with
    | none =>
      have run : callNative .print inv w = (.error (.stuck .dangling), w) := by
        simp [callNative, Native.call, Builtin.call, Builtin.miscount?, Builtin.arity?,
          Builtin.perform, shown]
      exact .of_run run (.refl _) made (by simp)
    | some texts =>
      have run : callNative .print inv w = (.ok .undefined,
          { w with sink := Sink.writeln w.sink (" ".intercalate texts) }) := by
        simp [callNative, Native.call, Builtin.call, Builtin.miscount?, Builtin.arity?,
          Builtin.perform, shown]
      exact .of_run run (.refl _) made (by simp)
  | operator op =>
    rcases Builtin.call_operator op inv w.heap with ⟨x, y, -, reply⟩ | ⟨count, reply⟩
    · have run : callNative (.operator op) inv w =
          ((op.apply x y).mapError fun fault => .failed ⟨fault, inv.line⟩, w) := by
        simp only [callNative, Native.call, reply, List.foldl_nil]
      refine .of_run run (.refl _) made fun err failed => ?_
      cases answer : op.apply x y with
      | ok v =>
        rw [answer] at failed
        cases failed
      | error fault =>
        rw [answer] at failed
        cases failed
        rcases Operator.fault_of_apply answer with ⟨rfl, so⟩ | ⟨rfl, so⟩ | rfl
        · exact so
        · exact so
        · trivial
    · have run : callNative (.operator op) inv w =
          (.error (.failed ⟨.arityMismatch op.name 2 inv.arguments.length, inv.line⟩), w) := by
        simp only [callNative, Native.call, reply, List.foldl_nil]
      refine .of_run run (.refl _) made fun err failed => ?_
      cases failed
      have listed : Builtin.operator op ∈ Builtin.all :=
        List.mem_cons_of_mem _ (List.mem_map_of_mem op.mem_all)
      exact ⟨Ne.symm count, .inr ⟨⟨.operator op, listed, rfl, rfl⟩, rfl, call⟩⟩

section
variable {c : Origin} {go : Ref → Expr → Action ν σ Value}
  (honest : ∀ scope e (w : World ν σ), w.heap.MadeFrom c.source → w.heap.Site c.form e →
    c.Honest w (go scope e))
include honest

theorem evalAll_honest {w : World ν σ} (made : w.heap.MadeFrom c.source) (scope : Ref)
    {es : List Expr} (sites : ∀ e ∈ es, w.heap.Site c.form e) :
    c.Honest w (evalAll go scope es) := by
  induction es generalizing w with
  | nil => exact .pure made []
  | cons e es ih =>
    obtain ⟨head, rest⟩ := List.forall_mem_cons.mp sites
    refine (honest scope e w made head).bind fun v w₁ grows made₁ => ?_
    exact (ih made₁ fun e he => (rest e he).mono grows).bind fun vs _ _ made₂ => .pure made₂ _

theorem evalProperties_honest {w : World ν σ} (made : w.heap.MadeFrom c.source) (scope object : Ref)
    {ps : List (String × Expr)} (sites : ∀ e ∈ ps.map (·.2), w.heap.Site c.form e) :
    c.Honest w (evalProperties go scope object ps) := by
  induction ps generalizing w with
  | nil => exact .pure made ()
  | cons p ps ih =>
    obtain ⟨head, rest⟩ := List.forall_mem_cons.mp sites
    refine (honest scope p.2 w made head).bind fun v w₁ grows made₁ => ?_
    refine (Honest.register made₁ object p.1 v).bind fun _ w₂ grows' made₂ => ?_
    exact ih made₂ fun e he => (rest e he).mono (grows.trans grows')

/-- A wrong number of arguments is reported where the function was defined. -/
theorem callClosure_honest {w : World ν σ} (made : w.heap.MadeFrom c.source) {name : String}
    {closure : Closure} (has : w.heap.HasClosure name closure) (inv : Invocation) :
    c.Honest w (callClosure go name closure inv) := by
  unfold callClosure
  split
  · refine (Honest.alloc made (by simp)).bind fun scope w₁ g₁ made₁ => ?_
    refine (Honest.register made₁ scope "this" _).bind fun _ w₂ g₂ made₂ => ?_
    refine (bindParameters_honest made₂ scope _ _).bind fun _ w₃ g₃ made₃ => ?_
    have later := has.mono (g₁.trans (g₂.trans g₃))
    exact (honest scope closure.body w₃ made₃
      (.inr ⟨name, closure, later, closure.body.mem_nodes_self⟩)).catchReturn
  · next count =>
    obtain ⟨n, known, defines⟩ := made name closure has
    exact .fail made ⟨Ne.symm count, .inl ⟨n, closure, known, defines, has, rfl, rfl⟩⟩

theorem evalAssign_honest {w : World ν σ} (made : w.heap.MadeFrom c.source) (scope : Ref)
    {line : Nat} {mode : AssignMode} {name : String} {value : Expr}
    (site : w.heap.Site c.form (.assign line mode name value)) :
    c.Honest w (evalAssign go scope line mode name value) := by
  refine (Honest.lookup made scope name).bind fun known w₁ grows made₁ => ?_
  have here := site.mono grows
  split
  · exact .fail made₁ ⟨value, here⟩
  · exact .fail made₁ ⟨value, here⟩
  · refine (honest scope value w₁ made₁ (here.part List.mem_cons_self)).bind fun v _ _ made₂ => ?_
    exact (Honest.register made₂ scope name v).bind fun _ _ _ made₃ => .pure made₃ _

end

section
variable [Sink σ] {c : Origin} {go : Ref → Expr → Action Builtin σ Value}
  (honest : ∀ scope e (w : World Builtin σ), w.heap.MadeFrom c.source → w.heap.Site c.form e →
    c.Honest w (go scope e))
include honest

theorem apply_honest {w : World Builtin σ} (made : w.heap.MadeFrom c.source) {n : Expr}
    (site : w.heap.Site c.form n) (call : n.isCall = true) (f : Ref) (receiver : Value)
    (arguments : List Value) : c.Honest w (apply go ⟨f, receiver, arguments, n.line⟩) := by
  refine .kindOf_bind made fun o ho => ?_
  split
  · exact callNative_honest made _ ⟨n, site, call, rfl⟩
  · next kind => exact callClosure_honest honest made ⟨f, o, ho, kind⟩ _
  · exact .stop made (by simp)

/-- If the evaluator is honest on the parts of an expression it is honest on the expression. -/
theorem step_honest {w : World Builtin σ} (made : w.heap.MadeFrom c.source) (scope : Ref) {e : Expr}
    (site : w.heap.Site c.form e) : c.Honest w (step go scope e) := by
  have part : ∀ {w' : World Builtin σ}, w.heap.Grows w'.heap → w'.heap.MadeFrom c.source →
      ∀ p ∈ e.parts, c.Honest w' (go scope p) :=
    fun grows made' p hp => honest scope p _ made' ((site.part hp).mono grows)
  cases e with
  | literal l v => exact .pure made _
  | block l body =>
    exact (evalAll_honest honest made scope fun e he => site.part he).bind fun _ _ _ made' =>
      .pure made' _
  | access l x => exact .lookup made scope x
  | assign l mode x value => exact evalAssign_honest honest made scope site
  | function l name parameters body =>
    exact evalFunction_honest made scope (c.source_of_site made site)
  | call l callee arguments =>
    refine (part (.refl _) made callee List.mem_cons_self).bind fun v w₁ g₁ made₁ => ?_
    refine (expectFunction_honest made₁ v l).bind fun f w₂ g₂ made₂ => ?_
    have sites : ∀ e ∈ arguments, w₂.heap.Site c.form e := fun e he =>
      (site.part (List.mem_cons_of_mem _ he)).mono (g₁.trans g₂)
    refine (evalAll_honest honest made₂ scope sites).bind fun vs w₃ g₃ made₃ => ?_
    exact apply_honest honest made₃ (site.mono (g₁.trans (g₂.trans g₃))) rfl f _ vs
  | leave l value =>
    refine (part (.refl _) made value List.mem_cons_self).bind fun v _ _ made' => ?_
    exact .stop made' (by simp)
  | conditional l condition yes no =>
    refine (part (.refl _) made condition List.mem_cons_self).bind fun v w₁ g₁ made₁ => ?_
    split
    · exact part g₁ made₁ yes (by simp [Expr.parts])
    · exact part g₁ made₁ no (by simp [Expr.parts])
  | object l properties =>
    refine (Honest.alloc made (by simp)).bind fun r w₁ g₁ made₁ => ?_
    have sites : ∀ e ∈ properties.map (·.2), w₁.heap.Site c.form e := fun e he =>
      (site.part he).mono g₁
    exact (evalProperties_honest honest made₁ scope r sites).bind fun _ _ _ made₂ => .pure made₂ _
  | field l receiver x =>
    refine (part (.refl _) made receiver List.mem_cons_self).bind fun v w₁ _ made₁ => ?_
    exact (expectObject_honest made₁ v l).bind fun r _ _ made₂ => .lookup made₂ r x
  | setField l receiver x value =>
    refine (part (.refl _) made receiver List.mem_cons_self).bind fun v w₁ g₁ made₁ => ?_
    refine (expectObject_honest made₁ v l).bind fun r w₂ g₂ made₂ => ?_
    refine (part (g₁.trans g₂) made₂ value (by simp [Expr.parts])).bind fun u _ _ made₃ => ?_
    exact (Honest.register made₃ r x u).bind fun _ _ _ made₄ => .pure made₄ _
  | method l receiver x arguments =>
    refine (part (.refl _) made receiver List.mem_cons_self).bind fun v w₁ g₁ made₁ => ?_
    refine (expectObject_honest made₁ v l).bind fun r w₂ g₂ made₂ => ?_
    refine (Honest.lookup made₂ r x).bind fun callee w₃ g₃ made₃ => ?_
    refine (expectFunction_honest made₃ callee l).bind fun f w₄ g₄ made₄ => ?_
    have grown := g₁.trans (g₂.trans (g₃.trans g₄))
    have sites : ∀ e ∈ arguments, w₄.heap.Site c.form e := fun e he =>
      (site.part (List.mem_cons_of_mem _ he)).mono grown
    refine (evalAll_honest honest made₄ scope sites).bind fun vs w₅ g₅ made₅ => ?_
    exact apply_honest honest made₅ (site.mono (grown.trans g₅)) rfl f _ vs

end

/-- The evaluator is honest on whatever stands where it can be evaluated. -/
theorem evaluate_honest [Sink σ] {c : Origin} (depth : Nat) (scope : Ref) (e : Expr)
    (w : World Builtin σ) (made : w.heap.MadeFrom c.source) (site : w.heap.Site c.form e) :
    c.Honest w (evaluate depth scope e) := by
  induction depth generalizing scope e w with
  | zero => exact .stop made (by simp)
  | succ depth ih => exact step_honest ih made scope site

end Eval
end Lisplet
