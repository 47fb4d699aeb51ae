import Mathlib.Data.List.Forall2
import Lisplet.Eval.Session
/-!
Two evaluations side by side. A likeness says which lines, which expressions and which sinks count
as alike; expressions that are alike have the same form and the same names, and their parts are alike
again. It goes over to closures, objects, heaps and results, where values must be the same: objects
that are created at the same time have the same reference.

Alike expressions are evaluated alike in alike worlds, at every depth (`Eval.evaluate_alike`), and so
they are in sessions (`Session.evaluate_alike`). An evaluation thus depends on nothing that a likeness
leaves open. To be alike to itself is a property of a thing, and then the same theorems say that
evaluation keeps this property.
-/
namespace Lisplet

/-- The expressions have the same form, names and literals; their lines are alike and so are their
parts. -/
inductive Expr.Matches (line : Nat → Nat → Prop) (code : Expr → Expr → Prop) :
    Expr → Expr → Prop where
  | literal {l l'} (v : Literal) (lines : line l l') : Matches line code (.literal l v) (.literal l' v)
  | block {l l' es es'} (lines : line l l') (body : List.Forall₂ code es es') :
      Matches line code (.block l es) (.block l' es')
  | access {l l'} (x : String) (lines : line l l') : Matches line code (.access l x) (.access l' x)
  | assign {l l' e e'} (mode : AssignMode) (x : String) (lines : line l l') (value : code e e') :
      Matches line code (.assign l mode x e) (.assign l' mode x e')
  | function {l l' e e'} (name : Option String) (parameters : List String) (lines : line l l')
      (body : code e e') :
      Matches line code (.function l name parameters e) (.function l' name parameters e')
  | call {l l' f f' es es'} (lines : line l l') (callee : code f f')
      (arguments : List.Forall₂ code es es') : Matches line code (.call l f es) (.call l' f' es')
  | leave {l l' e e'} (lines : line l l') (value : code e e') :
      Matches line code (.leave l e) (.leave l' e')
  | conditional {l l' c c' t t' e e'} (lines : line l l') (condition : code c c') (yes : code t t')
      (no : code e e') : Matches line code (.conditional l c t e) (.conditional l' c' t' e')
  | object {l l' ps ps'} (lines : line l l')
      (properties : List.Forall₂ (fun p p' => p.1 = p'.1 ∧ code p.2 p'.2) ps ps') :
      Matches line code (.object l ps) (.object l' ps')
  | field {l l' e e'} (x : String) (lines : line l l') (receiver : code e e') :
      Matches line code (.field l e x) (.field l' e' x)
  | setField {l l' e e' v v'} (x : String) (lines : line l l') (receiver : code e e')
      (value : code v v') : Matches line code (.setField l e x v) (.setField l' e' x v')
  | method {l l' e e' es es'} (x : String) (lines : line l l') (receiver : code e e')
      (arguments : List.Forall₂ code es es') :
      Matches line code (.method l e x es) (.method l' e' x es')

theorem Expr.Matches.lines {line : Nat → Nat → Prop} {code : Expr → Expr → Prop} {e e' : Expr}
    (h : e.Matches line code e') : line e.line e'.line := by
  cases h <;> assumption

theorem Expr.matches_self (e : Expr) : e.Matches Eq Eq e := by
  cases e <;> constructor <;> simp [List.forall₂_same]

/-- Lists that are mapped to the same list have as many members, which are mapped to the same ones. -/
theorem forall₂_of_map_eq {α β : Type} {f : α → β} {as bs : List α} (h : as.map f = bs.map f) :
    List.Forall₂ (fun a b => f a = f b) as bs := by
  rw [← List.forall₂_eq_eq_eq] at h
  exact List.forall₂_map_right_iff.mp (List.forall₂_map_left_iff.mp h)

/-- What two evaluations may differ in. -/
structure Likeness (σ τ : Type) [Sink σ] [Sink τ] where
  line : Nat → Nat → Prop
  code : Expr → Expr → Prop
  sink : σ → τ → Prop
  matches_of_code : ∀ {e e'}, code e e' → e.Matches line code e'
  sink_writeln : ∀ {a b}, sink a b → ∀ text, sink (Sink.writeln a text) (Sink.writeln b text)

namespace Likeness

/-- The likeness of what has printed the same and runs code that is alike. -/
def ofCode (σ : Type) [Sink σ] (line : Nat → Nat → Prop) (code : Expr → Expr → Prop)
    (matches_of_code : ∀ {e e'}, code e e' → e.Matches line code e') : Likeness σ σ where
  line
  code
  sink := Eq
  matches_of_code
  sink_writeln := fun same text => congrArg (Sink.writeln · text) same

/-- The likeness of what runs the same code and prints to two places. -/
def ofSinks {σ τ : Type} [Sink σ] [Sink τ] (sink : σ → τ → Prop)
    (sink_writeln : ∀ {a b}, sink a b → ∀ text, sink (Sink.writeln a text) (Sink.writeln b text)) :
    Likeness σ τ where
  line := Eq
  code := Eq
  sink
  matches_of_code := fun same => same ▸ Expr.matches_self _
  sink_writeln

variable {ν σ τ α β : Type} [Sink σ] [Sink τ] (R : Likeness σ τ)

structure Closures (c c' : Closure) : Prop where
  line : R.line c.line c'.line
  parameters : c.parameters = c'.parameters
  body : R.code c.body c'.body
  scope : c.scope = c'.scope

inductive Kinds : Kind ν → Kind ν → Prop where
  | environment : Kinds .environment .environment
  | plain : Kinds .plain .plain
  | native (name : String) (native : ν) :
      Kinds (.function name (.native native)) (.function name (.native native))
  | closure (name : String) {c c' : Closure} (closures : R.Closures c c') :
      Kinds (.function name (.closure c)) (.function name (.closure c'))

structure Objects (o o' : Object ν) : Prop where
  kind : R.Kinds o.kind o'.kind
  slots : o.slots = o'.slots
  parent : o.parent = o'.parent

/-- The heaps have as many objects, and those with the same reference are alike. -/
structure Heaps (h h' : Heap ν) : Prop where
  size : h.objects.size = h'.objects.size
  objects : ∀ r, Option.Rel R.Objects (h.get? r) (h'.get? r)

structure Worlds (w : World ν σ) (w' : World ν τ) : Prop where
  heap : R.Heaps w.heap w'.heap
  sink : R.sink w.sink w'.sink

inductive Endings : Ending → Ending → Prop where
  | returned (v : Value) : Endings (.returned v) (.returned v)
  | failed (fault : Fault) {l l' : Nat} (lines : R.line l l') :
      Endings (.failed ⟨fault, l⟩) (.failed ⟨fault, l'⟩)
  | exhausted : Endings .exhausted .exhausted
  | stuck (defect : Defect) : Endings (.stuck defect) (.stuck defect)

inductive Results (same : α → β → Prop) : Except Ending α → Except Ending β → Prop where
  | ok {a : α} {b : β} (values : same a b) : Results same (.ok a) (.ok b)
  | error {e e' : Ending} (endings : R.Endings e e') : Results same (.error e) (.error e')

/-- In alike worlds the actions have alike results and leave alike worlds. -/
def Actions (same : α → β → Prop) (m : Action ν σ α) (m' : Action ν τ β) : Prop :=
  ∀ w w', R.Worlds w w' → R.Results same (m w).1 (m' w').1 ∧ R.Worlds (m w).2 (m' w').2

structure Sessions (s : Session σ) (s' : Session τ) : Prop where
  global : s.global = s'.global
  worlds : R.Worlds s.world s'.world

variable {R}

/-! What heaps that are alike give. -/

theorem Kinds.isFunction_eq {k k' : Kind ν} (h : R.Kinds k k') : k.isFunction = k'.isFunction := by
  cases h <;> rfl

theorem Kinds.short_eq {k k' : Kind ν} (h : R.Kinds k k') : k.short = k'.short := by
  cases h <;> rfl

/-- New objects are alike if their sorts are. -/
theorem Objects.new {k k' : Kind ν} (kinds : R.Kinds k k') (parent : Option Ref) :
    R.Objects { kind := k, parent } { kind := k', parent } := ⟨kinds, rfl, rfl⟩

/-- A reference names alike objects in both heaps, or none in either. -/
theorem Heaps.get? {h h' : Heap ν} (heaps : R.Heaps h h') (r : Ref) :
    (h.get? r = none ∧ h'.get? r = none) ∨
      ∃ o o', h.get? r = some o ∧ h'.get? r = some o' ∧ R.Objects o o' := by
  have objects := heaps.objects r
  generalize h.get? r = x at objects ⊢
  generalize h'.get? r = y at objects ⊢
  cases objects with
  | none => exact .inl ⟨rfl, rfl⟩
  | some alike => exact .inr ⟨_, _, rfl, rfl, alike⟩

theorem Heaps.lookupWithin_eq {h h' : Heap ν} (heaps : R.Heaps h h') (name : String) (fuel : Nat)
    (r : Ref) : h.lookupWithin name fuel r = h'.lookupWithin name fuel r := by
  induction fuel generalizing r with
  | zero => rfl
  | succ fuel ih =>
    rcases heaps.get? r with ⟨ho, ho'⟩ | ⟨o, o', ho, ho', alike⟩
    · simp only [Heap.lookupWithin, ho, ho']
    · simp only [Heap.lookupWithin, ho, ho', alike.slots, alike.parent, ih]

theorem Heaps.lookup?_eq {h h' : Heap ν} (heaps : R.Heaps h h') (r : Ref) (name : String) :
    h.lookup? r name = h'.lookup? r name :=
  heaps.lookupWithin_eq name (r.index + 1) r

theorem Heaps.short?_eq {h h' : Heap ν} (heaps : R.Heaps h h') (r : Ref) :
    h.short? r = h'.short? r := by
  rcases heaps.get? r with ⟨ho, ho'⟩ | ⟨o, o', ho, ho', alike⟩
  · simp only [Heap.short?, ho, ho']
  · simp only [Heap.short?, ho, ho', Option.map_some, alike.kind.short_eq]

theorem Heaps.propertyText?_eq {h h' : Heap ν} (heaps : R.Heaps h h') (v : Value) :
    h.propertyText? v = h'.propertyText? v := by
  cases v with
  | object r => exact heaps.short?_eq r
  | undefined | integer | string => rfl

/-- Values look the same in heaps that are alike. -/
theorem Heaps.text?_eq {h h' : Heap ν} (heaps : R.Heaps h h') (v : Value) :
    h.text? v = h'.text? v := by
  cases v with
  | object r =>
    rcases heaps.get? r with ⟨ho, ho'⟩ | ⟨⟨kind, slots, _⟩, ⟨kind', _, _⟩, ho, ho', kinds, rfl, rfl⟩
    · simp [Heap.text?, Heap.objectText?, ho, ho']
    · simp only [Heap.text?, Heap.objectText?, ho, ho']
      cases kinds with
      | plain => simp only [heaps.propertyText?_eq]
      | environment | native | closure => rfl
  | undefined | integer | string => rfl

theorem Heaps.alloc {h h' : Heap ν} (heaps : R.Heaps h h') {o o' : Object ν}
    (objects : R.Objects o o') : R.Heaps (h.alloc o).2 (h'.alloc o').2 := by
  refine ⟨by simp [Heap.alloc, heaps.size], fun r => ?_⟩
  simp only [Heap.alloc, Heap.get?, Array.getElem?_push, ← heaps.size]
  split
  · exact .some objects
  · exact heaps.objects r

theorem Heaps.register {h h' : Heap ν} (heaps : R.Heaps h h') (r : Ref) (name : String)
    (v : Value) : R.Heaps (h.register r name v) (h'.register r name v) := by
  refine ⟨by simp [Heap.register, heaps.size], fun p => ?_⟩
  rw [Heap.get?_register, Heap.get?_register]
  rcases heaps.get? p with ⟨ho, ho'⟩ | ⟨o, o', ho, ho', alike⟩
  · rw [ho, ho']
    exact .none
  · rw [ho, ho']
    refine .some ?_
    split
    · exact ⟨alike.kind, congrArg (·.insert name v) alike.slots, alike.parent⟩
    · exact alike

theorem Heaps.addNatives {h h' : Heap ν} (heaps : R.Heaps h h') (scope : Ref)
    (natives : List (String × ν)) :
    R.Heaps (h.addNatives scope natives) (h'.addNatives scope natives) := by
  induction natives generalizing h h' with
  | nil => exact heaps
  | cons entry rest ih =>
    rcases entry with ⟨name, native⟩
    have created := heaps.alloc (.new (.native name native) none)
    have named := created.register scope name (.object ⟨h.objects.size⟩)
    simp only [Heap.addNatives, Heap.alloc, ← heaps.size]
    exact ih named

/-! One rule for each way to make an action. -/

namespace Actions

variable {same : α → β → Prop}

theorem pure {a : α} {b : β} (h : same a b) :
    R.Actions same (Pure.pure a : Action ν σ α) (Pure.pure b) :=
  fun _ _ worlds => ⟨.ok h, worlds⟩

theorem stop {e e' : Ending} (h : R.Endings e e') :
    R.Actions same (Action.stop e : Action ν σ α) (Action.stop e') :=
  fun _ _ worlds => ⟨.error h, worlds⟩

theorem fail (fault : Fault) {l l' : Nat} (lines : R.line l l') :
    R.Actions same (Action.fail fault l : Action ν σ α) (Action.fail fault l') :=
  stop (.failed fault lines)

theorem bind {γ δ : Type} {same' : γ → δ → Prop} {m : Action ν σ α} {m' : Action ν τ β}
    {f : α → Action ν σ γ} {f' : β → Action ν τ δ} (first : R.Actions same m m')
    (next : ∀ a b, same a b → R.Actions same' (f a) (f' b)) :
    R.Actions same' (m >>= f) (m' >>= f') := by
  intro w w' worlds
  obtain ⟨results, later⟩ := first w w' worlds
  rcases hm : m w with ⟨_ | a, w₁⟩ <;> rcases hm' : m' w' with ⟨_ | b, w₁'⟩ <;>
    rw [hm, hm'] at results later <;> cases results
  · next endings =>
    rw [Action.run_bind_error hm, Action.run_bind_error hm']
    exact ⟨.error endings, later⟩
  · next values =>
    rw [Action.run_bind_ok hm, Action.run_bind_ok hm']
    exact next a b values w₁ w₁' later

/-- The common case of a sequence: the first actions give the same value. -/
theorem bind_eq {γ δ : Type} {same' : γ → δ → Prop} {m : Action ν σ α} {m' : Action ν τ α}
    {f : α → Action ν σ γ} {f' : α → Action ν τ δ} (first : R.Actions Eq m m')
    (next : ∀ a, R.Actions same' (f a) (f' a)) : R.Actions same' (m >>= f) (m' >>= f') :=
  first.bind fun a _ h => h ▸ next a

theorem alloc {o o' : Object ν} (objects : R.Objects o o') :
    R.Actions Eq (Action.alloc o : Action ν σ Ref) (Action.alloc o') :=
  fun _ _ worlds => ⟨.ok (congrArg Ref.mk worlds.heap.size), worlds.heap.alloc objects, worlds.sink⟩

theorem register (r : Ref) (name : String) (v : Value) :
    R.Actions Eq (Action.register r name v : Action ν σ Unit) (Action.register r name v) := by
  intro w w' worlds
  simp only [Action.register, ← worlds.heap.size]
  split
  · exact ⟨.ok rfl, worlds.heap.register r name v, worlds.sink⟩
  · exact ⟨.error (.stuck _), worlds⟩

theorem lookup (r : Ref) (name : String) :
    R.Actions Eq (Action.lookup r name : Action ν σ Value) (Action.lookup r name) := by
  intro w w' worlds
  simp only [Action.lookup, ← worlds.heap.lookup?_eq]
  split
  · exact ⟨.ok rfl, worlds⟩
  · exact ⟨.error (.stuck _), worlds⟩

theorem kindOf (r : Ref) :
    R.Actions R.Kinds (Action.kindOf r : Action ν σ (Kind ν)) (Action.kindOf r) := by
  intro w w' worlds
  rcases worlds.heap.get? r with ⟨ho, ho'⟩ | ⟨o, o', ho, ho', alike⟩
  · simp only [Action.kindOf, ho, ho']
    exact ⟨.error (.stuck _), worlds⟩
  · simp only [Action.kindOf, ho, ho']
    exact ⟨.ok alike.kind, worlds⟩

theorem catchReturn {m : Action ν σ Value} {m' : Action ν τ Value} (h : R.Actions Eq m m') :
    R.Actions Eq (Action.catchReturn m) (Action.catchReturn m') := by
  intro w w' worlds
  obtain ⟨results, later⟩ := h w w' worlds
  rcases hm : m w with ⟨e | v, w₁⟩ <;> rcases hm' : m' w' with ⟨e' | v', w₁'⟩ <;>
    rw [hm, hm'] at results later <;> cases results
  · next endings =>
    simp only [Action.catchReturn, hm, hm']
    cases endings with
    | returned v => exact ⟨.ok rfl, later⟩
    | failed fault lines => exact ⟨.error (.failed fault lines), later⟩
    | exhausted => exact ⟨.error .exhausted, later⟩
    | stuck defect => exact ⟨.error (.stuck defect), later⟩
  · next values =>
    simp only [Action.catchReturn, hm, hm']
    exact ⟨.ok values, later⟩

end Actions
end Likeness

namespace Eval

open Likeness

variable {ν σ τ : Type} [Sink σ] [Sink τ] {R : Likeness σ τ}

theorem expectFunction_alike (v : Value) {l l' : Nat} (lines : R.line l l') :
    R.Actions Eq (expectFunction v l : Action ν σ Ref) (expectFunction v l') := by
  cases v with
  | object r =>
    refine (Actions.kindOf r).bind fun kind kind' kinds => ?_
    rw [kinds.isFunction_eq]
    split
    · exact .pure rfl
    · exact .fail _ lines
  | undefined | integer | string => exact .fail _ lines

theorem expectObject_alike (v : Value) {l l' : Nat} (lines : R.line l l') :
    R.Actions Eq (expectObject v l : Action ν σ Ref) (expectObject v l') := by
  cases v with
  | object r => exact .pure rfl
  | undefined | integer | string => exact .fail _ lines

theorem bindParameters_alike (scope : Ref) (parameters : List String) (arguments : List Value) :
    R.Actions Eq (bindParameters scope parameters arguments : Action ν σ Unit)
      (bindParameters scope parameters arguments) := by
  induction parameters generalizing arguments with
  | nil =>
    cases arguments with
    | nil => exact .pure rfl
    | cons => exact .stop (.stuck _)
  | cons p ps ih =>
    cases arguments with
    | nil => exact .stop (.stuck _)
    | cons v vs => exact (Actions.register scope p v).bind_eq fun _ => ih vs

theorem evalFunction_alike (scope : Ref) {l l' : Nat} (lines : R.line l l') (name : Option String)
    (parameters : List String) {body body' : Expr} (code : R.code body body') :
    R.Actions Eq (evalFunction scope l name parameters body : Action ν σ Value)
      (evalFunction scope l' name parameters body') := by
  have closures : R.Closures ⟨l, parameters, body, scope⟩ ⟨l', parameters, body', scope⟩ :=
    ⟨lines, rfl, code, rfl⟩
  refine (Actions.alloc (.new (.closure _ closures) none)).bind_eq fun r => ?_
  cases name with
  | none => exact .pure rfl
  | some x => exact (Actions.register scope x _).bind_eq fun _ => .pure rfl

/-- A builtin does not look at lines or at code; its errors are on the line of the call. -/
theorem callNative_alike (b : Builtin) (f : Ref) (receiver : Value) (arguments : List Value)
    {l l' : Nat} (lines : R.line l l') :
    R.Actions Eq (callNative b ⟨f, receiver, arguments, l⟩ : Action Builtin σ Value)
      (callNative b ⟨f, receiver, arguments, l'⟩) := by
  intro w w' worlds
  cases b with
  | print =>
    have texts : (fun v => w.heap.text? v) = fun v => w'.heap.text? v :=
      funext worlds.heap.text?_eq
    simp only [callNative, Native.call, Builtin.call, Builtin.miscount?, Builtin.arity?,
      Option.bind_none, Builtin.perform, texts]
    cases arguments.mapM fun v => w'.heap.text? v with
    | none => exact ⟨.error (.stuck _), worlds.heap, worlds.sink⟩
    | some texts => exact ⟨.ok rfl, worlds.heap, R.sink_writeln worlds.sink _⟩
  | operator op =>
    simp only [callNative, Native.call, Builtin.call]
    cases Builtin.miscount? (.operator op) arguments with
    | some fault => exact ⟨.error (.failed fault lines), worlds.heap, worlds.sink⟩
    | none =>
      refine ⟨?_, worlds.heap, worlds.sink⟩
      simp only [Builtin.perform, Builtin.operate]
      split
      · next a b _ _ =>
        cases op.apply a b with
        | ok v => exact .ok rfl
        | error fault => exact .error (.failed fault lines)
      · exact .error (.stuck _)

section
variable {go : Ref → Expr → Action ν σ Value} {go' : Ref → Expr → Action ν τ Value}
  (parts : ∀ scope e e', R.code e e' → R.Actions Eq (go scope e) (go' scope e'))
include parts

theorem evalAll_alike (scope : Ref) {es es' : List Expr} (code : List.Forall₂ R.code es es') :
    R.Actions Eq (evalAll go scope es) (evalAll go' scope es') := by
  induction code with
  | nil => exact .pure rfl
  | cons head _ ih =>
    exact (parts scope _ _ head).bind_eq fun v => ih.bind_eq fun vs => .pure rfl

theorem evalProperties_alike (scope object : Ref) {ps ps' : List (String × Expr)}
    (code : List.Forall₂ (fun p p' => p.1 = p'.1 ∧ R.code p.2 p'.2) ps ps') :
    R.Actions Eq (evalProperties go scope object ps) (evalProperties go' scope object ps') := by
  induction code with
  | nil => exact .pure rfl
  | @cons p p' ps ps' head _ ih =>
    rcases p with ⟨x, e⟩
    rcases p' with ⟨_, e'⟩
    obtain ⟨rfl, value⟩ := head
    exact (parts scope e e' value).bind_eq fun v =>
      (Actions.register object x v).bind_eq fun _ => ih

theorem callClosure_alike (name : String) {c c' : Closure} (closures : R.Closures c c')
    {inv inv' : Invocation} (receiver : inv.receiver = inv'.receiver)
    (arguments : inv.arguments = inv'.arguments) :
    R.Actions Eq (callClosure go name c inv) (callClosure go' name c' inv') := by
  unfold callClosure
  rw [receiver, arguments, closures.parameters, closures.scope]
  split
  · refine (Actions.alloc (.new .environment _)).bind_eq fun scope => ?_
    refine (Actions.register scope "this" _).bind_eq fun _ => ?_
    refine (bindParameters_alike scope _ _).bind_eq fun _ => .catchReturn ?_
    exact parts scope _ _ closures.body
  · exact .fail _ closures.line

theorem evalAssign_alike (scope : Ref) {l l' : Nat} (lines : R.line l l') (mode : AssignMode)
    (name : String) {value value' : Expr} (code : R.code value value') :
    R.Actions Eq (evalAssign go scope l mode name value)
      (evalAssign go' scope l' mode name value') := by
  refine (Actions.lookup scope name).bind_eq fun known => ?_
  split
  · exact .fail _ lines
  · exact .fail _ lines
  · exact (parts scope value value' code).bind_eq fun v =>
      (Actions.register scope name v).bind_eq fun _ => .pure rfl

end

section
variable {go : Ref → Expr → Action Builtin σ Value} {go' : Ref → Expr → Action Builtin τ Value}
  (parts : ∀ scope e e', R.code e e' → R.Actions Eq (go scope e) (go' scope e'))
include parts

theorem apply_alike (f : Ref) (receiver : Value) (arguments : List Value) {l l' : Nat}
    (lines : R.line l l') :
    R.Actions Eq (apply go ⟨f, receiver, arguments, l⟩) (apply go' ⟨f, receiver, arguments, l'⟩) := by
  refine (Actions.kindOf f).bind fun kind kind' kinds => ?_
  cases kinds with
  | environment | plain => exact .stop (.stuck _)
  | native name b => exact callNative_alike b f receiver arguments lines
  | closure name closures => exact callClosure_alike parts name closures rfl rfl

/-- Expressions of the same form are evaluated alike if their parts are. -/
theorem step_alike (scope : Ref) {e e' : Expr} (form : e.Matches R.line R.code e') :
    R.Actions Eq (step go scope e) (step go' scope e') := by
  cases form with
  | literal v => exact .pure rfl
  | block lines body => exact (evalAll_alike parts scope body).bind_eq fun _ => .pure rfl
  | access x => exact .lookup scope x
  | assign mode x lines value => exact evalAssign_alike parts scope lines mode x value
  | function name parameters lines body => exact evalFunction_alike scope lines name parameters body
  | call lines callee arguments =>
    refine (parts scope _ _ callee).bind_eq fun v => ?_
    refine (expectFunction_alike v lines).bind_eq fun f => ?_
    refine (evalAll_alike parts scope arguments).bind_eq fun vs => ?_
    exact apply_alike parts f _ vs lines
  | leave lines value => exact (parts scope _ _ value).bind_eq fun v => .stop (.returned v)
  | conditional lines condition yes no =>
    refine (parts scope _ _ condition).bind_eq fun v => ?_
    split
    · exact parts scope _ _ yes
    · exact parts scope _ _ no
  | object lines properties =>
    refine (Actions.alloc (.new .plain none)).bind_eq fun r => ?_
    exact (evalProperties_alike parts scope r properties).bind_eq fun _ => .pure rfl
  | field x lines receiver =>
    refine (parts scope _ _ receiver).bind_eq fun v => ?_
    exact (expectObject_alike v lines).bind_eq fun r => .lookup r x
  | setField x lines receiver value =>
    refine (parts scope _ _ receiver).bind_eq fun v => ?_
    refine (expectObject_alike v lines).bind_eq fun r => ?_
    refine (parts scope _ _ value).bind_eq fun u => ?_
    exact (Actions.register r x u).bind_eq fun _ => .pure rfl
  | method x lines receiver arguments =>
    refine (parts scope _ _ receiver).bind_eq fun v => ?_
    refine (expectObject_alike v lines).bind_eq fun r => ?_
    refine (Actions.lookup r x).bind_eq fun callee => ?_
    refine (expectFunction_alike callee lines).bind_eq fun f => ?_
    refine (evalAll_alike parts scope arguments).bind_eq fun vs => ?_
    exact apply_alike parts f v vs lines

end

/-- Alike expressions are evaluated alike, at every depth. -/
theorem evaluate_alike (depth : Nat) (scope : Ref) {e e' : Expr} (code : R.code e e') :
    R.Actions Eq (evaluate depth scope e : Action Builtin σ Value) (evaluate depth scope e') := by
  induction depth generalizing scope e e' with
  | zero => exact .stop .exhausted
  | succ depth ih => exact step_alike (fun scope e e' => ih scope) scope (R.matches_of_code code)

end Eval

namespace Session

open Likeness

variable {σ τ : Type} [Sink σ] [Sink τ] {R : Likeness σ τ}

/-- Sessions start alike: there is no code in them yet. -/
theorem start_alike {a : σ} {b : τ} (sinks : R.sink a b) : R.Sessions (start a) (start b) := by
  refine ⟨rfl, ?_, sinks⟩
  have empty : R.Heaps (Heap.empty : Heap Builtin) Heap.empty := ⟨rfl, fun _ => .none⟩
  exact ((empty.alloc (.new .environment none)).register _ _ _).addNatives _ _

theorem evaluate_alike {s : Session σ} {s' : Session τ} (sessions : R.Sessions s s') (depth : Nat)
    {e e' : Expr} (code : R.code e e') :
    R.Results Eq (s.evaluate depth e).1 (s'.evaluate depth e').1 ∧
      R.Sessions (s.evaluate depth e).2 (s'.evaluate depth e').2 := by
  obtain ⟨results, worlds⟩ := Eval.evaluate_alike depth s.global code s.world s'.world sessions.worlds
  rw [sessions.global] at results worlds
  have later : R.Sessions (s.evaluate depth e).2 (s'.evaluate depth e').2 := by
    refine ⟨sessions.global, ?_⟩
    simpa only [evaluate, sessions.global] using worlds
  refine ⟨?_, later⟩
  simp only [evaluate, sessions.global]
  generalize (Eval.evaluate depth s'.global e s.world).1 = x at results
  generalize (Eval.evaluate depth s'.global e' s'.world).1 = y at results
  cases results with
  | ok same => exact .ok same
  | error endings =>
    cases endings with
    | returned v => exact .error (.failed _ (R.matches_of_code code).lines)
    | failed fault lines => exact .error (.failed fault lines)
    | exhausted => exact .error .exhausted
    | stuck defect => exact .error (.stuck defect)

end Session
end Lisplet
