import Lisplet.Proofs.Session.Invariant
/-!
Scopes are encapsulated. Names are set in the scope that is evaluated in, and a call is evaluated in
a scope of its own, so the only other way to change a scope would be to set its properties as those
of an object; and no program gets hold of a scope that is not the global one.
-/
namespace Lisplet

variable {ν σ : Type}

namespace Heap

/-- The value names an object of the heap, if it names one. -/
def Has (h : Heap ν) : Value → Prop
  | .object r => r.index < h.objects.size
  | _ => True

/-- No function of the heap sets properties of objects. -/
def WritesNoField (h : Heap ν) : Prop :=
  ∀ o ∈ h.objects, ∀ closure ∈ o.kind.closure?, closure.body.WritesNoField

instance (h : Heap ν) : Decidable h.WritesNoField :=
  inferInstanceAs (Decidable (∀ o ∈ h.objects, ∀ closure ∈ o.kind.closure?, _))

end Heap

/-- The values that are handed to a function. -/
def Invocation.operands (inv : Invocation) : List Value := inv.receiver :: inv.arguments

namespace Realm

/-- The realm of a session to which some scopes have been lent as values. -/
def lending (global : Ref) (lent : Ref → Prop) (quiet : Prop) : Realm :=
  { whole global with
    shared := fun r => r = global ∨ lent r
    quiet }

theorem Sound.lending {global : Ref} {h : Heap ν} (sound : (whole global).Sound h)
    (lent : Ref → Prop) {quiet : Prop} (calm : quiet → h.WritesNoField) :
    (lending global lent quiet).Sound h := by
  refine ⟨Nat.zero_le _, ?_, sound.global⟩
  intro r o ho
  have admits := sound.objects r o ho
  refine ⟨?_, admits.distinct, admits.older, admits.scopes, admits.child, admits.root,
    fun still => calm still o (Array.mem_of_getElem? ho)⟩
  intro entry hentry
  have value := admits.values entry hentry
  refine ⟨?_, value.2⟩
  cases hv : entry.2 with
  | object p =>
    rw [hv] at value
    obtain ⟨q, hq, shared⟩ := value.1
    exact ⟨q, hq, fun kind => .inl (shared kind)⟩
  | undefined | integer | string => trivial

/-- Whoever is lent all scopes among them may hold the values. -/
theorem holds_lending {global : Ref} {h : Heap ν} {quiet : Prop} {lent : Ref → Prop} {v : Value}
    (has : h.Has v) (given : ∀ r, v = .object r → lent r) :
    (lending global lent quiet).Holds h v := by
  cases v with
  | object r =>
    obtain ⟨o, ho⟩ := Heap.exists_get? has
    exact ⟨⟨o, ho, fun _ => .inr (given r rfl)⟩, trivial⟩
  | undefined | integer | string => exact ⟨trivial, trivial⟩

/-- A scope that is neither the global one nor lent is out of reach. -/
theorem not_holds_lending {global r : Ref} {h : Heap ν} {quiet : Prop} {lent : Ref → Prop}
    (scope : h.IsScope r) (other : r ≠ global) (kept : ¬ lent r) :
    ¬ (lending global lent quiet).Holds h (.object r) := by
  rintro ⟨⟨o, ho, shared⟩, -⟩
  obtain ⟨o', ho', kind⟩ := scope
  obtain rfl := Option.some.inj (ho'.symm.trans ho)
  exact (shared kind).elim other kept

end Realm

namespace Session

open Realm

variable [Sink σ] {s : Session σ}

/-- What an evaluation does not own and its realm does not let it set stays as it is. -/
theorem Reachable.evaluate_get? (reached : s.Reachable) (depth : Nat) {scope : Ref}
    (isScope : s.world.heap.IsScope scope) {quiet : Prop} {e : Expr}
    (still : quiet → e.WritesNoField ∧ s.world.heap.WritesNoField) {r : Ref}
    (here : r.index < s.world.heap.objects.size) (other : r ≠ scope)
    (kept : quiet ∨ ¬ (lending s.global (fun _ => False) quiet).Holds s.world.heap (.object r)) :
    (Eval.evaluate depth scope e s.world).2.heap.get? r = s.world.heap.get? r := by
  have sound := reached.sound.lending (fun _ => False) fun q => (still q).2
  have ready : (lending s.global (fun _ => False) quiet).Ready scope s.world.heap.objects.size
      s.world.heap := ⟨sound, isScope, trivial, Nat.le_refl _⟩
  have safe := Eval.evaluate_careful depth scope e _ s.world ready fun q => (still q).1
  refine safe.1.get?_eq here ?_ kept
  rintro (same | new)
  · exact other same
  · exact Nat.not_lt.mpr new here

/-- An invocation owns nothing that was there before. -/
theorem Reachable.invoke_get? (reached : s.Reachable) (depth : Nat) {inv : Invocation}
    (function : s.world.heap.IsFunction inv.function)
    (has : ∀ v ∈ inv.operands, s.world.heap.Has v) {quiet : Prop}
    (still : quiet → s.world.heap.WritesNoField) {r : Ref}
    (here : r.index < s.world.heap.objects.size)
    (kept : quiet ∨
      ¬ (lending s.global (.object · ∈ inv.operands) quiet).Holds s.world.heap (.object r)) :
    (Eval.invoke depth inv s.world).2.heap.get? r = s.world.heap.get? r := by
  have sound := reached.sound.lending (.object · ∈ inv.operands) still
  have held : ∀ v ∈ inv.operands,
      (lending s.global (.object · ∈ inv.operands) quiet).Holds s.world.heap v :=
    fun v hv => holds_lending (has v hv) fun r same => same ▸ hv
  have callee : (lending s.global (.object · ∈ inv.operands) quiet).Holds s.world.heap
      (.object inv.function) := by
    obtain ⟨o, ho, kind⟩ := function
    exact ⟨⟨o, ho, fun scope => absurd kind (by simp [scope, Kind.isFunction])⟩, trivial⟩
  have safe := Eval.invoke_safe sound (Nat.le_refl _) callee (held _ List.mem_cons_self)
    (fun v hv => held v (List.mem_cons_of_mem _ hv)) depth
  exact safe.1.get?_eq here (Nat.not_le.mpr here) kept

/-- Scopes are encapsulated: an evaluation changes no scope that was there before, except the one
that it takes place in and the global one, and an invocation with values that a session offers
changes none but the global one. If scopes are handed to an invocation all the same, it changes at
most those. Where no property of an object is ever set, nothing that was there before changes at
all, apart from the scope of the evaluation. -/
theorem evaluate_and_invoke_frame (reached : s.Reachable) (depth : Nat) :
    (∀ scope e, s.world.heap.IsScope scope →
      (∀ r, s.world.heap.IsScope r → r ≠ scope → r ≠ s.global →
        (Eval.evaluate depth scope e s.world).2.heap.get? r = s.world.heap.get? r) ∧
      (e.WritesNoField → s.world.heap.WritesNoField →
        ∀ r : Ref, r.index < s.world.heap.objects.size → r ≠ scope →
          (Eval.evaluate depth scope e s.world).2.heap.get? r = s.world.heap.get? r)) ∧
    ∀ inv : Invocation, s.world.heap.IsFunction inv.function →
      (∀ v ∈ inv.operands, s.world.heap.Has v) →
      ((∀ v ∈ inv.operands, s.world.heap.Offers s.global v) →
        ∀ r, s.world.heap.IsScope r → r ≠ s.global →
          (Eval.invoke depth inv s.world).2.heap.get? r = s.world.heap.get? r) ∧
      (∀ r, s.world.heap.IsScope r → r ≠ s.global →
        .object r ∉ inv.operands →
          (Eval.invoke depth inv s.world).2.heap.get? r = s.world.heap.get? r) ∧
      (s.world.heap.WritesNoField → ∀ r : Ref, r.index < s.world.heap.objects.size →
        (Eval.invoke depth inv s.world).2.heap.get? r = s.world.heap.get? r) := by
  constructor
  · intro scope e isScope
    constructor
    · intro r hr other foreign
      have free : ¬ (lending s.global (fun _ => False) False).Holds s.world.heap (.object r) :=
        not_holds_lending hr foreign id
      exact reached.evaluate_get? depth isScope False.elim hr.here other (.inr free)
    · intro calm still r here other
      exact reached.evaluate_get? depth isScope (fun _ => ⟨calm, still⟩) here other (.inl trivial)
  · intro inv function has
    have framed : ∀ r, s.world.heap.IsScope r → r ≠ s.global →
        .object r ∉ inv.operands →
          (Eval.invoke depth inv s.world).2.heap.get? r = s.world.heap.get? r := by
      intro r hr foreign kept
      have free : ¬ (lending s.global (.object · ∈ inv.operands) False).Holds s.world.heap
          (.object r) := not_holds_lending hr foreign kept
      exact reached.invoke_get? depth function has False.elim hr.here (.inr free)
    refine ⟨?_, framed, ?_⟩
    · intro offered r hr foreign
      exact framed r hr foreign fun given => foreign ((offered _ given).2 hr)
    · intro still r here
      exact reached.invoke_get? depth function has (fun _ => still) here (.inl trivial)

/-- A function that sets a name of the scope it was defined in sets it in a scope of its own, and a
declaration of that name elsewhere is another one. -/
theorem frame_of_update_in_closure : ∃ s : Session Transcript,
    s.Reachable ∧ s.world.heap.IsScope ⟨14⟩ ∧ s.world.heap.IsFunction ⟨15⟩ ∧
      s.world.heap.WritesNoField ∧
      (Eval.invoke 9 ⟨⟨15⟩, .undefined, [.object ⟨0⟩], 1⟩ s.world).2.heap.get? ⟨14⟩ =
        s.world.heap.get? ⟨14⟩ ∧
      (Eval.invoke 9 ⟨⟨15⟩, .undefined, [.object ⟨0⟩], 1⟩ s.world).2.heap.get? ⟨0⟩ =
        s.world.heap.get? ⟨0⟩ ∧
      (Eval.evaluate 9 ⟨0⟩ (.assign 1 .declare "x" (.literal 1 .undefined)) s.world).2.heap.get? ⟨14⟩ =
        s.world.heap.get? ⟨14⟩ := by
  have reached := (Reachable.start Transcript.empty).next 9
    (.call 1 (.function 1 none [] (.block 1 [
      .assign 1 .declare "x" (.literal 1 (.integer 1)),
      .function 1 none ["y"] (.block 1 [.assign 1 .update "x" (.access 1 "y")])])) [])
  obtain ⟨evaluated, invoked⟩ := evaluate_and_invoke_frame reached 9
  obtain ⟨offered, -, still⟩ := invoked ⟨⟨15⟩, .undefined, [.object ⟨0⟩], 1⟩ ⟨_, rfl, rfl⟩
    (List.forall_mem_cons.mpr ⟨trivial,
      List.forall_mem_singleton.mpr (Heap.lt_size_of_get? rfl)⟩)
  have global := offered (List.forall_mem_cons.mpr ⟨trivial,
    List.forall_mem_singleton.mpr ⟨Heap.lt_size_of_get? rfl, fun _ => rfl⟩⟩)
  refine ⟨_, reached, ⟨_, rfl, rfl⟩, ⟨_, rfl, rfl⟩, by decide +kernel, ?_, ?_, ?_⟩
  · exact global ⟨14⟩ ⟨_, rfl, rfl⟩ (by decide +kernel)
  · exact still (by decide +kernel) ⟨0⟩ (by decide +kernel)
  · exact (evaluated ⟨0⟩ _ ⟨_, rfl, rfl⟩).2 (by decide) (by decide +kernel) ⟨14⟩
      (by decide +kernel) (by decide)

end Session
end Lisplet
