import Mathlib.Logic.Relation
import Lisplet.Eval.Action
import Lisplet.Proofs.Expr.Parts
import Lisplet.Proofs.Object.Growth
/-!
What evaluation may do to the world. It takes three kinds of steps: it creates objects, sets
properties and prints. A realm says which objects can be got at, and with it what such a step is
allowed to be; a heap is sound in a realm if its references are good, its parents older than their
children and its environments out of reach as values, up to those that the realm shares.

A step keeps a heap sound (`Step.sound`) and lets it grow only (`Step.grows`), and it leaves alone
every object that is neither owned nor held as a value (`Step.get?_eq`). The same then holds of runs,
which are sequences of steps; nothing about evaluation is needed for it.
-/
namespace Lisplet

variable {ν σ : Type}

/-- The function's closure, if it is no native. -/
def Kind.closure? : Kind ν → Option Closure
  | .function _ (.closure c) => some c
  | _ => none

/-- The scopes that the object depends on: its parent and the one its closure was defined in. -/
def Object.scopes (o : Object ν) : List Ref :=
  o.parent.toList ++ (o.kind.closure?.map (·.scope)).toList

/-- The reference names a scope. -/
def Heap.IsScope (h : Heap ν) (r : Ref) : Prop := ∃ o, h.get? r = some o ∧ o.kind = .environment

/-- The reference names a function. -/
def Heap.IsFunction (h : Heap ν) (r : Ref) : Prop :=
  ∃ o, h.get? r = some o ∧ o.kind.isFunction = true

/-- The values that the fault shows. -/
def Fault.values : Fault → List Value
  | .invalidCallee v | .invalidReceiver v => [v]
  | .nonNumerics a b | .nonComparable a b => [a, b]
  | _ => []

/-- The worlds have printed the same, they have as many objects, and of those in question they have the
same. -/
structure World.AgreeOn (p : Ref → Prop) (w x : World ν σ) : Prop where
  sink : x.sink = w.sink
  size : x.heap.objects.size = w.heap.objects.size
  get? : ∀ r, p r → x.heap.get? r = w.heap.get? r

/-- What an evaluation can get at. The scopes in `shared` may be values, and no others; the objects
in `known` may be reached, and all that are created from `base` on are. If the realm is `quiet`, no
program in it sets properties of objects. -/
structure Realm where
  global : Ref
  shared : Ref → Prop
  known : Ref → Prop
  quiet : Prop
  base : Nat
  known_new : ∀ r : Ref, base ≤ r.index → known r

namespace Realm

variable (c : Realm)

/-- The value names an object of the heap, if it names one, and no scope that is not shared. -/
def Allows (h : Heap ν) : Value → Prop
  | .object r => ∃ o, h.get? r = some o ∧ (o.kind = .environment → c.shared r)
  | _ => True

def Knows : Value → Prop
  | .object r => c.known r
  | _ => True

/-- The value may be held by the program. -/
def Holds (h : Heap ν) (v : Value) : Prop := c.Allows h v ∧ c.Knows v

/-- What an ending carries may be held, and it does not mean that the evaluation is stuck. -/
def Ends (h : Heap ν) : Ending → Prop
  | .returned v => c.Holds h v
  | .failed e => ∀ v ∈ e.fault.values, c.Holds h v
  | .exhausted => True
  | .stuck _ => False

/-- A result is as wanted, or the ending is harmless. -/
def Leaves {α : Type} (h : Heap ν) (post : α → Prop) : Except Ending α → Prop
  | .ok a => post a
  | .error e => c.Ends h e

/-- The object may stand in the heap under this reference. -/
structure Admits (h : Heap ν) (r : Ref) (o : Object ν) : Prop where
  values : ∀ entry ∈ o.slots.entries, c.Allows h entry.2 ∧ (c.known r → c.Knows entry.2)
  distinct : o.slots.names.Nodup
  older : ∀ p ∈ o.parent, p.index < r.index
  scopes : ∀ p ∈ o.scopes, h.IsScope p ∧ (c.known r → c.known p)
  child : o.parent ≠ none → o.kind = .environment
  root : o.kind = .environment → o.parent = none → r = c.global
  calm : c.quiet → ∀ closure ∈ o.kind.closure?, closure.body.WritesNoField

/-- The heap keeps to the realm. -/
structure Sound (h : Heap ν) : Prop where
  base_le : c.base ≤ h.objects.size
  objects : ∀ r o, h.get? r = some o → c.Admits h r o
  global : h.IsScope c.global

/-- One step of an evaluation that owns some objects. It may set their properties in any case, and
those of other objects that it holds unless the realm is quiet. -/
inductive Step [Sink σ] (own : Ref → Prop) : World ν σ → World ν σ → Prop where
  | alloc (w : World ν σ) (o : Object ν) (admits : c.Admits w.heap ⟨w.heap.objects.size⟩ o) :
      Step own w { w with heap := (w.heap.alloc o).2 }
  | register (w : World ν σ) (r : Ref) (name : String) (v : Value)
      (target : own r ∨ ¬ c.quiet ∧ c.Holds w.heap (.object r)) (value : c.Holds w.heap v) :
      Step own w { w with heap := w.heap.register r name v }
  | print (w : World ν σ) (text : String) :
      Step own w { w with sink := Sink.writeln w.sink text }

/-- Any number of steps. -/
def Run [Sink σ] (own : Ref → Prop) : World ν σ → World ν σ → Prop :=
  Relation.ReflTransGen (c.Step own)

end Realm

variable {c : Realm}

/-! Worlds that agree still do when the same is done to both. -/

namespace World.AgreeOn

variable {p : Ref → Prop} {w x : World ν σ}

theorem mono {q : Ref → Prop} (agree : w.AgreeOn p x) (weaker : ∀ r, q r → p r) : w.AgreeOn q x :=
  ⟨agree.sink, agree.size, fun r hr => agree.get? r (weaker r hr)⟩

theorem alloc (agree : w.AgreeOn p x) (o : Object ν) :
    AgreeOn p { w with heap := (w.heap.alloc o).2 } { x with heap := (x.heap.alloc o).2 } := by
  refine ⟨agree.sink, by simp [Heap.alloc, agree.size], fun r hr => ?_⟩
  have same := agree.get? r hr
  simp only [Heap.get?] at same
  simp only [Heap.alloc, Heap.get?, Array.getElem?_push, agree.size, same]

theorem register (agree : w.AgreeOn p x) (r : Ref) (name : String) (v : Value) :
    AgreeOn p { w with heap := w.heap.register r name v }
      { x with heap := x.heap.register r name v } := by
  refine ⟨agree.sink, by simp [Heap.register, agree.size], fun q hq => ?_⟩
  simp only [Heap.get?_register, agree.get? q hq]

end World.AgreeOn

theorem Heap.IsScope.here {h : Heap ν} {r : Ref} (hr : h.IsScope r) :
    r.index < h.objects.size := by
  obtain ⟨o, ho, -⟩ := hr
  exact lt_size_of_get? ho

/-! What holds of a heap holds of what it grows into. -/

theorem Heap.IsScope.mono {h h' : Heap ν} (g : h.Grows h') {r : Ref} (hr : h.IsScope r) :
    h'.IsScope r := by
  obtain ⟨o, ho, kind⟩ := hr
  obtain ⟨o', ho', go⟩ := g r o ho
  exact ⟨o', ho', go.kind.trans kind⟩

theorem Heap.IsFunction.mono {h h' : Heap ν} (g : h.Grows h') {r : Ref} (hr : h.IsFunction r) :
    h'.IsFunction r := by
  obtain ⟨o, ho, kind⟩ := hr
  obtain ⟨o', ho', go⟩ := g r o ho
  exact ⟨o', ho', by rw [go.kind, kind]⟩

namespace Realm

theorem Allows.mono {h h' : Heap ν} (g : h.Grows h') {v : Value} (hv : c.Allows h v) :
    c.Allows h' v := by
  cases v with
  | object r =>
    obtain ⟨o, ho, shared⟩ := hv
    obtain ⟨o', ho', go⟩ := g r o ho
    exact ⟨o', ho', fun kind => shared (go.kind.symm.trans kind)⟩
  | undefined | integer | string => trivial

theorem Holds.mono {h h' : Heap ν} (g : h.Grows h') {v : Value} (hv : c.Holds h v) :
    c.Holds h' v := ⟨hv.1.mono g, hv.2⟩

/-- Values that were there before are not held for the first time. -/
theorem Holds.of_grows {h h' : Heap ν} (g : h.Grows h') {r : Ref} (hr : r.index < h.objects.size)
    (hv : c.Holds h' (.object r)) : c.Holds h (.object r) := by
  obtain ⟨⟨o', ho', shared⟩, known⟩ := hv
  obtain ⟨o, ho⟩ := Heap.exists_get? hr
  obtain ⟨o₁, ho₁, go⟩ := g r o ho
  obtain rfl := Option.some.inj (ho₁.symm.trans ho')
  exact ⟨⟨o, ho, fun kind => shared (go.kind.trans kind)⟩, known⟩

/-- A new object that is no scope may be held. -/
theorem Holds.new {h : Heap ν} {r : Ref} {o : Object ν} (created : h.get? r = some o)
    (kind : o.kind ≠ .environment) (new : c.base ≤ r.index) : c.Holds h (.object r) :=
  ⟨⟨o, created, fun scope => absurd scope kind⟩, c.known_new r new⟩

theorem Admits.mono {h h' : Heap ν} (g : h.Grows h') {r : Ref} {o : Object ν}
    (ho : c.Admits h r o) : c.Admits h' r o :=
  { ho with
    values := fun entry hentry => (ho.values entry hentry).imp_left (·.mono g)
    scopes := fun p hp => (ho.scopes p hp).imp_left (·.mono g) }

/-- Setting a property keeps an object admissible. -/
theorem Admits.insert {h : Heap ν} {r : Ref} {o : Object ν} (ho : c.Admits h r o) {v : Value}
    (hv : c.Holds h v) (name : String) :
    c.Admits h r { o with slots := o.slots.insert name v } := by
  refine ⟨?_, Slots.nodup_names_insert ho.distinct name v, ho.older, ho.scopes, ho.child, ho.root,
    ho.calm⟩
  intro entry hentry
  rcases Slots.mem_insert hentry with rfl | before
  · exact ⟨hv.1, fun _ => hv.2⟩
  · exact ho.values entry before

/-- A new object without properties is admissible if its scopes are known ones. -/
theorem Admits.new {h : Heap ν} {o : Object ν} (bare : o.slots = .empty)
    (scopes : ∀ p ∈ o.scopes, h.IsScope p ∧ c.known p)
    (child : o.parent ≠ none ↔ o.kind = .environment)
    (calm : c.quiet → ∀ closure ∈ o.kind.closure?, closure.body.WritesNoField) :
    c.Admits h ⟨h.objects.size⟩ o := by
  refine ⟨by simp [bare, Slots.empty], by simp [bare, Slots.names, Slots.empty], ?_,
    fun p hp => (scopes p hp).imp_right fun known _ => known, child.mp, ?_, calm⟩
  · intro p hp
    exact (scopes p (by simp [Object.scopes, Option.mem_def.mp hp])).1.here
  · intro kind alone
    exact absurd alone (child.mpr kind)

/-! What one step does. -/

variable [Sink σ] {own : Ref → Prop} {w w' : World ν σ}

theorem Step.grows (s : c.Step own w w') : w.heap.Grows w'.heap := by
  cases s with
  | alloc o admits => exact w.heap.grows_alloc o
  | register r name v => exact w.heap.grows_register r name v
  | print => exact .refl _

theorem Step.sound (s : c.Step own w w') (sound : c.Sound w.heap) : c.Sound w'.heap := by
  have g := s.grows
  refine ⟨Nat.le_trans sound.base_le g.size_le, ?_, sound.global.mono g⟩
  intro r o ho
  cases s with
  | alloc o₁ admits =>
    rcases Heap.get?_alloc_eq_some ho with old | ⟨rfl, rfl⟩
    · exact (sound.objects r o old).mono g
    · exact admits.mono g
  | register r₁ name v target value =>
    rw [Heap.get?_register] at ho
    obtain ⟨before, hbefore, rfl⟩ := Option.map_eq_some_iff.mp ho
    have admits := sound.objects r before hbefore
    by_cases here : r₁ = r
    · rw [if_pos here]
      exact (admits.insert value name).mono g
    · rw [if_neg here]
      exact admits.mono g
  | print => exact sound.objects r o ho

/-- A step leaves alone what the evaluation neither owns nor may set. -/
theorem Step.get?_eq (s : c.Step own w w') {r : Ref} (hr : r.index < w.heap.objects.size)
    (foreign : ¬ own r) (kept : c.quiet ∨ ¬ c.Holds w.heap (.object r)) :
    w'.heap.get? r = w.heap.get? r := by
  cases s with
  | alloc o admits => exact w.heap.get?_alloc_of_lt o hr
  | register r₁ name v target value =>
    have other : r₁ ≠ r := by
      rintro rfl
      rcases target with mine | ⟨loud, held⟩
      · exact foreign mine
      · exact kept.elim loud (· held)
    exact w.heap.get?_register_of_ne other name v
  | print => rfl

/-! What a run does, by induction on its steps. -/

theorem Step.mono {own' : Ref → Prop} (s : c.Step own w w') (weaker : ∀ r, own r → own' r) :
    c.Step own' w w' := by
  cases s with
  | alloc o admits => exact .alloc w o admits
  | register r name v target value =>
    exact .register w r name v (target.imp_left (weaker r)) value
  | print text => exact .print w text

theorem Run.mono {own' : Ref → Prop} (run : c.Run own w w') (weaker : ∀ r, own r → own' r) :
    c.Run own' w w' := by
  induction run with
  | refl => exact .refl
  | tail _ last ih => exact ih.tail (last.mono weaker)

theorem Run.trans {w'' : World ν σ} (first : c.Run own w w') (second : c.Run own w' w'') :
    c.Run own w w'' := Relation.ReflTransGen.trans first second

theorem Run.grows (run : c.Run own w w') : w.heap.Grows w'.heap := by
  induction run with
  | refl => exact .refl _
  | tail _ last ih => exact ih.trans last.grows

theorem Run.sound (run : c.Run own w w') (sound : c.Sound w.heap) : c.Sound w'.heap := by
  induction run with
  | refl => exact sound
  | tail _ last ih => exact last.sound ih

/-- A run leaves alone what the evaluation neither owns nor may set. -/
theorem Run.get?_eq (run : c.Run own w w') {r : Ref} (hr : r.index < w.heap.objects.size)
    (foreign : ¬ own r) (kept : c.quiet ∨ ¬ c.Holds w.heap (.object r)) :
    w'.heap.get? r = w.heap.get? r := by
  induction run with
  | refl => rfl
  | tail before last ih =>
    have g := Run.grows before
    -- What was not held at first is not held later: it has not changed its sort.
    have later := kept.imp_right fun free held => free (Holds.of_grows g hr held)
    rw [last.get?_eq (Nat.lt_of_lt_of_le hr g.size_le) foreign later, ih]

end Realm
end Lisplet
