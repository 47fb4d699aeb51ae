import Lisplet.Eval.Session
import Lisplet.Proofs.Eval.Safety
/-!
What holds of the heap as long as a session lasts, whatever is evaluated and however it ends. No
reference is dangling; parents are older than their children, so delegation always comes to an end,
in the global scope if it starts in a scope; and a scope is never a value, unless it is the global
one.

An evaluation is a sequence of steps that all keep to this. So it holds in the midst of evaluations, too
(`Visited.sound`).
-/
namespace Lisplet

variable {ν σ : Type}

/-- The object that the value names. -/
def Value.ref? : Value → Option Ref
  | .object r => some r
  | _ => none

/-- The references that the object holds: in its properties, to its parent, in its closure. -/
def Object.refs (o : Object ν) : List Ref := o.slots.entries.filterMap (·.2.ref?) ++ o.scopes

theorem Object.mem_refs_iff {o : Object ν} {p : Ref} :
    p ∈ o.refs ↔ (∃ name, (name, .object p) ∈ o.slots.entries) ∨ p ∈ o.scopes := by
  constructor
  · intro mem
    rcases List.mem_append.mp mem with slot | scope
    · obtain ⟨⟨name, v⟩, hentry, hv⟩ := List.mem_filterMap.mp slot
      cases v with
      | object q =>
        obtain rfl : q = p := Option.some.inj hv
        exact .inl ⟨name, hentry⟩
      | undefined | integer | string => cases hv
    · exact .inr scope
  · rintro (⟨name, hentry⟩ | scope)
    · exact List.mem_append_left _ (List.mem_filterMap.mpr ⟨_, hentry, rfl⟩)
    · exact List.mem_append_right _ scope

def Ending.values : Ending → List Value
  | .returned v => [v]
  | .failed e => e.fault.values
  | _ => []

/-- The values that an outcome shows, as a result or in what it complains about. -/
def outcomeValues : Except Ending Value → List Value
  | .ok v => [v]
  | .error e => e.values

namespace Heap

/-- The value names an object of the heap, if it names one, and no scope but the global one. -/
def Offers (h : Heap ν) (global : Ref) : Value → Prop
  | .object r => r.index < h.objects.size ∧ (h.IsScope r → r = global)
  | _ => True

/-- The heap of a session. -/
structure WellKept (global : Ref) (h : Heap ν) : Prop where
  references : ∀ r o, h.get? r = some o → ∀ p ∈ o.refs, p.index < h.objects.size
  parents : ∀ r o, h.get? r = some o → ∀ p ∈ o.parent, p.index < r.index
  children : ∀ r o, h.get? r = some o → o.kind ≠ .environment → o.parent = none
  closures : ∀ r o, h.get? r = some o → ∀ closure ∈ o.kind.closure?, h.IsScope closure.scope
  names : ∀ r o, h.get? r = some o → o.slots.names.Nodup
  values : ∀ r o, h.get? r = some o → ∀ entry ∈ o.slots.entries, h.Offers global entry.2
  /-- Delegation comes to an end. -/
  finite : ∀ r : Ref, r.index < h.objects.size → ∃ rs, h.Chain r rs
  /-- It does so in the global scope where it starts in a scope. -/
  root : ∀ r rs, h.IsScope r → h.Chain r rs → rs.getLast? = some global
  /-- Looking a name up searches all that is delegated to, and nothing else. -/
  lookups : ∀ r rs name, h.Chain r rs →
    h.lookup? r name = some ((rs.findSome? (h.own? name)).getD .undefined)

end Heap

namespace Realm

/-- The realm of a session: all objects are known and only the global scope is shared. -/
def whole (global : Ref) : Realm where
  global
  shared := (· = global)
  known := fun _ => True
  quiet := False
  base := 0
  known_new := fun _ _ => trivial

theorem allows_whole {h : Heap ν} {global : Ref} {v : Value} :
    (whole global).Allows h v ↔ h.Offers global v := by
  cases v with
  | object r =>
    constructor
    · rintro ⟨o, ho, shared⟩
      refine ⟨Heap.lt_size_of_get? ho, ?_⟩
      rintro ⟨p, hp, kind⟩
      obtain rfl := Option.some.inj (hp.symm.trans ho)
      exact shared kind
    · rintro ⟨here, shared⟩
      obtain ⟨o, ho⟩ := Heap.exists_get? here
      exact ⟨o, ho, fun kind => shared ⟨o, ho, kind⟩⟩
  | undefined | integer | string => exact Iff.rfl

/-- In a sound heap the chain of a scope ends in the global one. -/
theorem Sound.getLast?_chain {c : Realm} {h : Heap ν} (sound : c.Sound h) {r : Ref} {rs : List Ref}
    (chain : h.Chain r rs) (scope : h.IsScope r) : rs.getLast? = some c.global := by
  induction chain with
  | @last r o here alone =>
    obtain ⟨o', ho', kind⟩ := scope
    obtain rfl := Option.some.inj (ho'.symm.trans here)
    rw [(sound.objects r o' here).root kind alone]
    rfl
  | @link r p o rs here parent tail ih =>
    have above := (sound.objects r o here).scopes p (by simp [Object.scopes, parent])
    have last := ih above.1
    rw [List.getLast?_cons, last]
    rfl

theorem Sound.wellKept {h : Heap ν} {global : Ref} (sound : (whole global).Sound h) :
    h.WellKept global := by
  have values : ∀ r o, h.get? r = some o → ∀ entry ∈ o.slots.entries, h.Offers global entry.2 :=
    fun r o ho entry hentry => allows_whole.mp ((sound.objects r o ho).values entry hentry).1
  refine ⟨?_, sound.ordered, ?_, ?_, fun r o ho => (sound.objects r o ho).distinct, values,
    fun r hr => sound.ordered.exists_chain hr, fun r rs hr chain => sound.getLast?_chain chain hr,
    fun r rs name chain => Heap.lookup?_eq_of_chain sound.ordered chain name⟩
  · intro r o ho p hp
    rcases Object.mem_refs_iff.mp hp with ⟨name, hentry⟩ | link
    · exact (values r o ho _ hentry).1
    · exact ((sound.objects r o ho).scopes p link).1.here
  · intro r o ho kind
    by_cases alone : o.parent = none
    · exact alone
    · exact absurd ((sound.objects r o ho).child alone) kind
  · intro r o ho closure hclosure
    exact ((sound.objects r o ho).scopes closure.scope
      (by simp [Object.scopes, Option.mem_def.mp hclosure])).1

/-- An outcome that leaves values which may be held shows no others. -/
theorem Leaves.outcomeValues {c : Realm} {h : Heap ν} {result : Except Ending Value}
    (leaves : c.Leaves h (c.Holds h) result) : ∀ v ∈ outcomeValues result, c.Holds h v := by
  cases result with
  | ok v => exact List.forall_mem_singleton.mpr leaves
  | error e =>
    cases e with
    | returned v => exact List.forall_mem_singleton.mpr leaves
    | failed error => exact leaves
    | exhausted | stuck => simp [Lisplet.outcomeValues, Ending.values]

/-- Creating functions for natives takes allowed steps. -/
theorem addNatives_run [Sink σ] {c : Realm} {own : Ref → Prop} {scope : Ref} (mine : own scope)
    (natives : List (String × ν)) {w : World ν σ} (base : c.base ≤ w.heap.objects.size) :
    c.Run own w { w with heap := w.heap.addNatives scope natives } := by
  induction natives generalizing w with
  | nil => exact .refl
  | cons entry rest ih =>
    rcases entry with ⟨name, native⟩
    have admits : c.Admits w.heap ⟨w.heap.objects.size⟩
        { kind := .function name (.native native) } :=
      .new rfl (by simp [Object.scopes, Kind.closure?]) (by simp) (by simp [Kind.closure?])
    have created : c.Step own w _ := .alloc w _ admits
    have held : c.Holds (w.heap.alloc { kind := .function name (.native native) }).2
        (.object ⟨w.heap.objects.size⟩) :=
      .new (w.heap.get?_alloc _) (by simp) base
    have named : c.Step own _ _ := .register { w with heap := _ } scope name _ (.inl mine) held
    have rest := ih (Nat.le_trans base (created.grows.trans named.grows).size_le)
    exact .head created (.head named rest)

/-- A heap with nothing in it but a scope is sound. -/
theorem sound_alloc_global :
    (whole ⟨0⟩).Sound (Heap.empty.alloc ({ kind := .environment } : Object ν)).2 := by
  refine ⟨Nat.zero_le _, ?_, ⟨_, Heap.get?_alloc _ _, rfl⟩⟩
  intro r o ho
  rcases Heap.get?_alloc_eq_some ho with old | ⟨rfl, rfl⟩
  · simp [Heap.get?, Heap.empty] at old
  · exact ⟨by simp [Slots.empty], by simp [Slots.names, Slots.empty], by simp,
      by simp [Object.scopes, Kind.closure?], fun _ => rfl, fun _ _ => rfl, by simp [Kind.closure?]⟩

/-- A session may start with any natives. -/
theorem sound_addGlobal [Sink σ] (natives : List (String × ν)) (sink : σ) :
    (whole ⟨0⟩).Sound (Heap.addGlobal natives Heap.empty).2 := by
  have global : (whole ⟨0⟩).Holds (Heap.empty.alloc ({ kind := .environment } : Object ν)).2
      (.object ⟨0⟩) := ⟨⟨_, Heap.get?_alloc _ _, fun _ => rfl⟩, trivial⟩
  have mine : New 0 ⟨0⟩ := Nat.zero_le _
  have named : (whole ⟨0⟩).Step (New 0) _ _ :=
    .register ⟨_, sink⟩ ⟨0⟩ "global" _ (.inl mine) global
  exact (addNatives_run mine natives (Nat.zero_le _)).sound (named.sound sound_alloc_global)

/-- In a sound heap every evaluation in a scope keeps to the realm. -/
theorem Sound.safe_evaluate [Sink σ] {global scope : Ref} {w : World Builtin σ}
    (sound : (whole global).Sound w.heap) (isScope : w.heap.IsScope scope) (depth : Nat) (e : Expr) :
    (whole global).Safe (Owned scope 0) w (Eval.evaluate depth scope e) (whole global).Holds :=
  Eval.evaluate_careful depth scope e 0 w ⟨sound, isScope, trivial, Nat.zero_le _⟩ False.elim

end Realm

namespace Session

variable [Sink σ]

/-- The session can be reached: from a start, by evaluating any expressions in any scopes that are
there, however that ends. -/
inductive Reachable : Session σ → Prop where
  | start (sink : σ) : Reachable (start sink)
  | evaluate {s : Session σ} (before : Reachable s) (depth : Nat) (scope : Ref) (e : Expr)
      (isScope : s.world.heap.IsScope scope) :
      Reachable { s with world := (Eval.evaluate depth scope e s.world).2 }

theorem Reachable.sound {s : Session σ} (h : s.Reachable) :
    (Realm.whole s.global).Sound s.world.heap := by
  induction h with
  | start sink => exact Realm.sound_addGlobal Builtin.named sink
  | evaluate _ depth scope e isScope ih => exact (ih.safe_evaluate isScope depth e).run.sound ih

/-- Evaluating in the global scope, as sessions do, is one of the ways to go on. -/
theorem Reachable.next {s : Session σ} (reached : s.Reachable) (depth : Nat) (e : Expr) :
    (s.evaluate depth e).2.Reachable :=
  .evaluate reached depth s.global e reached.sound.global

theorem outcomeValues_forbidReturn {line : Nat} {result : Except Ending Value} {v : Value}
    (shown : v ∈ outcomeValues (forbidReturn line result)) : v ∈ outcomeValues result := by
  unfold forbidReturn at shown
  split at shown
  · cases shown
  · exact shown

/-- What an evaluation in any scope shows names objects that are there, and no scope but the global
one. -/
theorem Reachable.offers {s : Session σ} (reached : s.Reachable) (depth : Nat) {scope : Ref}
    (isScope : s.world.heap.IsScope scope) (e : Expr) :
    ∀ v ∈ outcomeValues (Eval.evaluate depth scope e s.world).1,
      (Eval.evaluate depth scope e s.world).2.heap.Offers s.global v := by
  have leaves := (reached.sound.safe_evaluate isScope depth e).leaves
  exact fun v shown => Realm.allows_whole.mp (leaves.outcomeValues v shown).1

/-- In every session that can be reached the heap is well kept, it stays so whatever is evaluated,
and neither a result nor an error shows a scope other than the global one. -/
theorem wellKept_and_offers {s : Session σ} (reached : s.Reachable) :
    s.world.heap.WellKept s.global ∧
    (∀ depth e, (s.evaluate depth e).2.world.heap.WellKept s.global ∧
      ∀ v ∈ outcomeValues (s.evaluate depth e).1,
        (s.evaluate depth e).2.world.heap.Offers s.global v) ∧
    ∀ depth scope e, s.world.heap.IsScope scope →
      (Eval.evaluate depth scope e s.world).2.heap.WellKept s.global ∧
      ∀ v ∈ outcomeValues (Eval.evaluate depth scope e s.world).1,
        (Eval.evaluate depth scope e s.world).2.heap.Offers s.global v := by
  refine ⟨reached.sound.wellKept, fun depth e => ⟨(reached.next depth e).sound.wellKept, ?_⟩, ?_⟩
  · intro v shown
    exact reached.offers depth reached.sound.global e v (outcomeValues_forbidReturn shown)
  · intro depth scope e isScope
    have later := Reachable.evaluate reached depth scope e isScope
    exact ⟨later.sound.wellKept, reached.offers depth isScope e⟩

/-- A call leaves its function and its scope behind, and evaluation goes on in that scope. -/
theorem wellKept_and_offers_call : ∃ s : Session Transcript,
    s.Reachable ∧ s.world.heap.WellKept s.global ∧ s.world.heap.IsScope ⟨14⟩ ∧
      ∀ v ∈ outcomeValues (Eval.evaluate 3 ⟨14⟩ (.access 1 "global") s.world).1,
        (Eval.evaluate 3 ⟨14⟩ (.access 1 "global") s.world).2.heap.Offers s.global v := by
  have reached := (Reachable.start Transcript.empty).next 9
    (.call 1 (.function 1 none [] (.block 1 [.leave 1 (.access 1 "global")])) [])
  have isScope : ((start Transcript.empty).evaluate 9 (.call 1 (.function 1 none []
      (.block 1 [.leave 1 (.access 1 "global")])) [])).2.world.heap.IsScope ⟨14⟩ := ⟨_, rfl, rfl⟩
  have kept := wellKept_and_offers reached
  exact ⟨_, reached, kept.1, isScope, (kept.2.2 3 ⟨14⟩ _ isScope).2⟩

/-- From the first session one gets to the second by evaluating any expressions in any scopes that are
there, however that ends, and by single steps as evaluations take them. So the second session may be in
the midst of an evaluation. -/
inductive Leads (s : Session σ) : Session σ → Prop where
  | refl : Leads s s
  | evaluate {s' : Session σ} (before : Leads s s') (depth : Nat) (scope : Ref) (e : Expr)
      (isScope : s'.world.heap.IsScope scope) :
      Leads s { s' with world := (Eval.evaluate depth scope e s'.world).2 }
  | step {s' : Session σ} (before : Leads s s') {w : World Builtin σ}
      (next : (Realm.whole s'.global).Step (fun _ => True) s'.world w) :
      Leads s { s' with world := w }

/-- The session can be reached, or be passed through on the way to one that can. -/
def Visited (s : Session σ) : Prop := ∃ s₀ : Session σ, s₀.Reachable ∧ s₀.Leads s

section
variable {s s' : Session σ}

theorem Leads.sound (leads : s.Leads s') (sound : (Realm.whole s.global).Sound s.world.heap) :
    (Realm.whole s'.global).Sound s'.world.heap := by
  induction leads with
  | refl => exact sound
  | evaluate _ depth scope e isScope ih => exact (ih.safe_evaluate isScope depth e).run.sound ih
  | step _ next ih => exact next.sound ih

theorem Leads.grows (leads : s.Leads s') (sound : (Realm.whole s.global).Sound s.world.heap) :
    s.world.heap.Grows s'.world.heap := by
  induction leads with
  | refl => exact .refl _
  | evaluate before depth scope e isScope ih =>
    have safe := (before.sound sound).safe_evaluate isScope depth e
    exact ih.trans safe.run.grows
  | step _ next ih => exact ih.trans next.grows

theorem Reachable.visited (reached : s.Reachable) : s.Visited := ⟨s, reached, .refl⟩

theorem Visited.sound (visited : s.Visited) : (Realm.whole s.global).Sound s.world.heap := by
  obtain ⟨s₀, reached, leads⟩ := visited
  exact leads.sound reached.sound

theorem Visited.evaluate (visited : s.Visited) (depth : Nat) (scope : Ref) (e : Expr)
    (isScope : s.world.heap.IsScope scope) :
    Visited { s with world := (Eval.evaluate depth scope e s.world).2 } := by
  obtain ⟨s₀, reached, leads⟩ := visited
  exact ⟨s₀, reached, leads.evaluate depth scope e isScope⟩

end

end Session

end Lisplet
