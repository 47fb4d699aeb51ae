import Lisplet.Proofs.Session.Encapsulation
/-!
What cannot be reached is left alone. From an object one gets to those that its properties name, to
its parent and to the scope that its closure was defined in, and from there on. An evaluation starts
from its scope, an invocation from the function and the values that it is given. References are never
made up, so whatever is out of reach at the start stays as it is, and stays out of reach: of all that
was in reach, and of every value that the outcome shows.

The realm of all that is in reach or new (`Realm.around`) says this of single steps. A sound heap of
this realm leads from known objects to known ones only (`Sound.known_of_reaches`).
-/
namespace Lisplet

variable {ν σ : Type}

namespace Heap

/-- The first object holds a reference to the second. -/
def Links (h : Heap ν) (r p : Ref) : Prop := ∃ o, h.get? r = some o ∧ p ∈ o.refs

/-- There is a way from the first object to the second. -/
def Reaches (h : Heap ν) : Ref → Ref → Prop := Relation.ReflTransGen h.Links

/-- There is a way to the object from one of the roots. -/
def InReach (h : Heap ν) (roots : List Value) (p : Ref) : Prop :=
  ∃ r, .object r ∈ roots ∧ h.Reaches r p

/-- What became of an object that was out of reach of the roots when the heap was `h`, now that it is
`h'` and the outcome shows some values. -/
structure Spares (h h' : Heap ν) (roots shown : List Value) (p : Ref) : Prop where
  unchanged : h'.get? p = h.get? p
  /-- What the roots are and what they led to does not lead to it now. -/
  away : ∀ r, h.InReach roots r → ¬ h'.Reaches r p
  hidden : ¬ h'.InReach shown p

theorem InReach.root {h : Heap ν} {roots : List Value} {r : Ref} (given : .object r ∈ roots) :
    h.InReach roots r := ⟨r, given, .refl⟩

theorem InReach.link {h : Heap ν} {roots : List Value} {r p : Ref} (near : h.InReach roots r)
    (link : h.Links r p) : h.InReach roots p := by
  obtain ⟨q, given, way⟩ := near
  exact ⟨q, given, way.tail link⟩

/-- No way leads out of what is closed. -/
theorem Reaches.of_closed {h : Heap ν} {near : Ref → Prop}
    (closed : ∀ r p, near r → h.Links r p → near p) {r p : Ref} (way : h.Reaches r p) (hr : near r) :
    near p := by
  induction way with
  | refl => exact hr
  | tail _ link ih => exact closed _ _ ih link

end Heap

/-- The values that an invocation starts from. -/
def Invocation.roots (inv : Invocation) : List Value := .object inv.function :: inv.operands

namespace Realm

/-- The realm of what is near, and of all that is created from `base` on. -/
def around (global : Ref) (near : Ref → Prop) (base : Nat) : Realm where
  global
  shared := fun _ => True
  known := fun r => near r ∨ base ≤ r.index
  quiet := False
  base
  known_new := fun _ new => .inr new

/-- If nothing near leads away, the heap keeps to the realm of what is near. -/
theorem Sound.around {global : Ref} {h : Heap ν} (sound : (whole global).Sound h)
    (near : Ref → Prop) (closed : ∀ r p, near r → h.Links r p → near p) :
    (around global near h.objects.size).Sound h := by
  refine ⟨Nat.le_refl _, ?_, sound.global⟩
  intro r o ho
  have admits := sound.objects r o ho
  have known : (near r ∨ h.objects.size ≤ r.index) → ∀ p ∈ o.refs,
      near p ∨ h.objects.size ≤ p.index := by
    intro known p hp
    have old := Heap.lt_size_of_get? ho
    exact .inl (closed r p (known.resolve_right (Nat.not_le.mpr old)) ⟨o, ho, hp⟩)
  refine ⟨?_, admits.distinct, admits.older, ?_, admits.child, admits.root, False.elim⟩
  · rintro ⟨name, v⟩ hentry
    have value := (admits.values _ hentry).1
    cases v with
    | object p =>
      obtain ⟨q, hq, -⟩ := value
      have held := Object.mem_refs_iff.mpr (.inl ⟨name, hentry⟩)
      exact ⟨⟨q, hq, fun _ => trivial⟩, fun near => known near p held⟩
    | undefined | integer | string => exact ⟨trivial, fun _ => trivial⟩
  · intro p hp
    exact ⟨(admits.scopes p hp).1, fun near => known near p (Object.mem_refs_iff.mpr (.inr hp))⟩

/-- In a sound heap the ways from known objects lead to known objects. -/
theorem Sound.known_of_reaches {c : Realm} {h : Heap ν} (sound : c.Sound h) {r p : Ref}
    (known : c.known r) (way : h.Reaches r p) : c.known p := by
  induction way with
  | refl => exact known
  | @tail q p _ link ih =>
    obtain ⟨o, ho, hp⟩ := link
    have admits := sound.objects q o ho
    rcases Object.mem_refs_iff.mp hp with ⟨name, hentry⟩ | scope
    · exact (admits.values _ hentry).2 ih
    · exact (admits.scopes p scope).2 ih

/-- A run that starts from the roots and owns nothing else spares all that is out of their reach. -/
theorem Run.spares [Sink σ] {global : Ref} {own : Ref → Prop} {w w' : World ν σ}
    {roots : List Value} {result : Except Ending Value}
    (sound : (around global (w.heap.InReach roots) w.heap.objects.size).Sound w.heap)
    (run : (around global (w.heap.InReach roots) w.heap.objects.size).Run own w w')
    (leaves : (around global (w.heap.InReach roots) w.heap.objects.size).Leaves w'.heap
      ((around global (w.heap.InReach roots) w.heap.objects.size).Holds w'.heap) result)
    (mine : ∀ r, own r → w.heap.InReach roots r ∨ w.heap.objects.size ≤ r.index) {p : Ref}
    (here : p.index < w.heap.objects.size) (far : ¬ w.heap.InReach roots p) :
    w.heap.Spares w'.heap roots (outcomeValues result) p := by
  have unknown : ¬ (around global (w.heap.InReach roots) w.heap.objects.size).known p :=
    fun known => known.elim far (Nat.not_le.mpr here)
  have later := run.sound sound
  refine ⟨?_, ?_, ?_⟩
  · exact run.get?_eq here (fun owned => unknown (mine p owned)) (.inr fun held => unknown held.2)
  · exact fun r near way => unknown (later.known_of_reaches (.inl near) way)
  · rintro ⟨r, shown, way⟩
    exact unknown (later.known_of_reaches (leaves.outcomeValues _ shown).2 way)

/-- Whoever starts from existing values may hold them. -/
theorem holds_around (global : Ref) {h : Heap ν} {roots : List Value}
    (has : ∀ v ∈ roots, h.Has v) {v : Value} (given : v ∈ roots) :
    (around global (h.InReach roots) h.objects.size).Holds h v := by
  cases v with
  | object r =>
    obtain ⟨o, ho⟩ := Heap.exists_get? (has _ given)
    exact ⟨⟨o, ho, fun _ => trivial⟩, .inl (.root given)⟩
  | undefined | integer | string => exact ⟨trivial, trivial⟩

end Realm

namespace Session

open Realm

variable [Sink σ] {s : Session σ}

/-- What is out of reach is never touched: neither an evaluation, starting from its scope, nor an
invocation, starting from the function, the receiver and the arguments, changes such an object,
however it ends; and afterwards there is still no way to it from what was in reach before, nor from
the values that the outcome shows. -/
theorem out_of_reach_spared (reached : s.Reachable) (depth : Nat) :
    (∀ scope e, s.world.heap.IsScope scope →
      ∀ p : Ref, p.index < s.world.heap.objects.size → ¬ s.world.heap.Reaches scope p →
        s.world.heap.Spares (Eval.evaluate depth scope e s.world).2.heap [.object scope]
          (outcomeValues (Eval.evaluate depth scope e s.world).1) p) ∧
    ∀ inv : Invocation, (∀ v ∈ inv.roots, s.world.heap.Has v) →
      ∀ p : Ref, p.index < s.world.heap.objects.size → ¬ s.world.heap.InReach inv.roots p →
        s.world.heap.Spares (Eval.invoke depth inv s.world).2.heap inv.roots
          (outcomeValues (Eval.invoke depth inv s.world).1) p := by
  have sound := fun roots => reached.sound.around (s.world.heap.InReach roots)
    fun _ _ near link => near.link link
  constructor
  · intro scope e isScope p here far
    have near : s.world.heap.InReach [.object scope] scope := .root (List.mem_singleton.mpr rfl)
    have ready : (around s.global (s.world.heap.InReach [.object scope])
        s.world.heap.objects.size).Ready scope s.world.heap.objects.size s.world.heap :=
      ⟨sound _, isScope, .inl near, Nat.le_refl _⟩
    have safe := Eval.evaluate_careful depth scope e _ s.world ready False.elim
    refine safe.1.spares (sound _) safe.2 ?_ here ?_
    · rintro r (rfl | new)
      · exact .inl near
      · exact .inr new
    · rintro ⟨r, given, way⟩
      obtain rfl := Value.object.inj (List.mem_singleton.mp given)
      exact far way
  · intro inv has p here far
    have held := fun v (given : v ∈ inv.roots) => holds_around s.global has given
    have safe := Eval.invoke_safe (sound inv.roots) (Nat.le_refl _) (held _ List.mem_cons_self)
      (held _ (List.mem_cons_of_mem _ List.mem_cons_self))
      (fun v hv => held v (List.mem_cons_of_mem _ (List.mem_cons_of_mem _ hv))) depth
    exact safe.1.spares (sound _) safe.2 (fun _ new => .inr new) here far

/-- The scope of a finished call is out of reach of the global scope, whatever is set there, and of a
builtin that is given the global scope. -/
theorem finished_call_spared : ∃ s : Session Transcript,
    s.Reachable ∧ s.world.heap.IsScope ⟨14⟩ ∧ ¬ s.world.heap.Reaches ⟨0⟩ ⟨14⟩ ∧
      s.world.heap.Spares (Eval.evaluate 9 ⟨0⟩ (.setField 1 (.access 1 "global") "x"
        (.literal 1 (.integer 1))) s.world).2.heap [.object ⟨0⟩] [.undefined] ⟨14⟩ ∧
      s.world.heap.Spares (Eval.invoke 9 ⟨⟨1⟩, .undefined, [.object ⟨0⟩], 1⟩ s.world).2.heap
        [.object ⟨1⟩, .undefined, .object ⟨0⟩] [.undefined] ⟨14⟩ := by
  have reached := (Reachable.start Transcript.empty).next 9
    (.call 1 (.function 1 none [] (.block 1 [.leave 1 (.access 1 "global")])) [])
  generalize hs : ((start Transcript.empty).evaluate 9 (.call 1 (.function 1 none []
    (.block 1 [.leave 1 (.access 1 "global")])) [])).2 = s at reached
  have old : ∀ i < 13, ∀ o ∈ s.world.heap.get? ⟨i⟩, ∀ p ∈ o.refs, p.index < 13 := by
    subst hs
    decide +kernel
  have closed : ∀ r p, r.index < 13 → s.world.heap.Links r p → p.index < 13 := by
    rintro r p hr ⟨o, ho, hp⟩
    exact old r.index hr o ho p hp
  have far : ∀ r : Ref, r.index < 13 → ¬ s.world.heap.Reaches r ⟨14⟩ :=
    fun r hr way => absurd (way.of_closed closed hr) (by decide)
  have here : (14 : Nat) < s.world.heap.objects.size := by
    subst hs
    decide +kernel
  have scope : ∀ i, i = 0 ∨ i = 14 → s.world.heap.IsScope ⟨i⟩ := by
    subst hs
    rintro i (rfl | rfl)
    · exact ⟨_, rfl, rfl⟩
    · exact ⟨_, rfl, rfl⟩
  obtain ⟨evaluated, invoked⟩ := out_of_reach_spared reached 9
  have spared := evaluated ⟨0⟩ (.setField 1 (.access 1 "global") "x" (.literal 1 (.integer 1)))
    (scope 0 (.inl rfl)) ⟨14⟩ here (far ⟨0⟩ (by decide))
  have has : ∀ v ∈ [Value.object ⟨1⟩, .undefined, .object ⟨0⟩], s.world.heap.Has v := by
    have old : ∀ i ≤ 14, s.world.heap.Has (.object ⟨i⟩) := fun i hi => Nat.lt_of_le_of_lt hi here
    exact List.forall_mem_cons.mpr ⟨old 1 (by decide), List.forall_mem_cons.mpr ⟨trivial,
      List.forall_mem_singleton.mpr (old 0 (by decide))⟩⟩
  have apart : ¬ s.world.heap.InReach [.object ⟨1⟩, .undefined, .object ⟨0⟩] ⟨14⟩ := by
    rintro ⟨r, given, way⟩
    obtain rfl | rfl : r = ⟨1⟩ ∨ r = ⟨0⟩ := by simpa using given
    · exact far ⟨1⟩ (by decide) way
    · exact far ⟨0⟩ (by decide) way
  have kept := invoked ⟨⟨1⟩, .undefined, [.object ⟨0⟩], 1⟩ has ⟨14⟩ here apart
  subst hs
  exact ⟨_, reached, scope 14 (.inr rfl), far ⟨0⟩ (by decide), spared, kept⟩

end Session
end Lisplet
