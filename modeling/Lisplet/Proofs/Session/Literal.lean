import Lisplet.Proofs.Eval.Abrupt
import Lisplet.Proofs.Object.Entries
import Lisplet.Proofs.Session.Reach
/-!
Object literals are their initializers. The object is created first, but while it is being built it is
known to nobody (`Realm.allBut`), and what is not known can neither be seen nor changed. So it makes no
difference that each property is set at once: it could as well wait until all initializers have been
evaluated (`Building.run_evalProperties`).
-/
namespace Lisplet

variable {ν σ α : Type}

namespace Realm

/-- What can be got at while an object is being built: all but this object. -/
def allBut (global object : Ref) : Realm := around global (· ≠ object) (object.index + 1)

theorem known_allBut {global object r : Ref} : (allBut global object).known r ↔ r ≠ object := by
  constructor
  · rintro (other | new) rfl
    · exact other rfl
    · exact Nat.lt_irrefl _ new
  · exact .inl

end Realm

open Realm

/-- The object is being built by an evaluation in the scope: it is a plain one, nobody knows of it, and
it is not a property of itself. -/
structure Heap.Building (global scope object : Ref) (h : Heap ν) : Prop where
  ready : (allBut global object).Ready scope (object.index + 1) h
  plain : ∃ slots, h.get? object = some { kind := .plain, slots } ∧
    ∀ entry ∈ slots.entries, entry.2 ≠ .object object

namespace Heap.Building

variable {global scope object : Ref}

theorem here {h : Heap ν} (b : h.Building global scope object) : object.index < h.objects.size :=
  b.ready.size

theorem not_links {h : Heap ν} (b : h.Building global scope object) (r : Ref) :
    ¬ h.Links r object := by
  intro link
  by_cases same : r = object
  · subst same
    obtain ⟨slots, built, others⟩ := b.plain
    obtain ⟨o, ho, mem⟩ := link
    obtain rfl := Option.some.inj (built.symm.trans ho)
    rcases Object.mem_refs_iff.mp mem with ⟨name, entry⟩ | scope
    · exact others _ entry rfl
    · simp [Object.scopes, Kind.closure?] at scope
  · have known := b.ready.sound.known_of_reaches (known_allBut.mpr same) (.single link)
    exact known_allBut.mp known rfl

section
variable [Sink σ] {w : World ν σ}

/-- A new object is being built until it is shown to somebody. -/
theorem new (sound : (whole global).Sound w.heap) (isScope : w.heap.IsScope scope) :
    (w.heap.alloc { kind := .plain }).2.Building global scope ⟨w.heap.objects.size⟩ := by
  have admits : (whole global).Admits w.heap ⟨w.heap.objects.size⟩ { kind := .plain } :=
    .new rfl (by simp [Object.scopes, Kind.closure?]) (by simp) (by simp [Kind.closure?])
  have created : (whole global).Step (fun _ => False) w _ := .alloc w _ admits
  have closed : ∀ r p : Ref, r ≠ ⟨w.heap.objects.size⟩ →
      (w.heap.alloc { kind := .plain }).2.Links r p → p ≠ ⟨w.heap.objects.size⟩ := by
    rintro r p other ⟨o, ho, mem⟩ rfl
    rcases get?_alloc_eq_some ho with old | ⟨rfl, -⟩
    · exact Nat.lt_irrefl _ (sound.wellKept.references r o old _ mem)
    · exact other rfl
  have size : (w.heap.alloc { kind := .plain }).2.objects.size = w.heap.objects.size + 1 := by
    simp [alloc]
  have hidden := (created.sound sound).around _ closed
  rw [size] at hidden
  refine ⟨⟨hidden, isScope.mono created.grows, known_allBut.mpr ?_, Nat.le_of_eq size.symm⟩, ?_⟩
  · rintro rfl
    exact Nat.lt_irrefl _ isScope.here
  · exact ⟨.empty, w.heap.get?_alloc _, by simp [Slots.empty]⟩

/-- What keeps to the realm leaves the object as it is, and does not get to know it. -/
theorem run (b : w.heap.Building global scope object) {m : Action ν σ α} {post : Heap ν → α → Prop}
    (safe : (allBut global object).Safe (Owned scope (object.index + 1)) w m post) :
    (m w).2.heap.get? object = w.heap.get? object ∧ (m w).2.heap.Building global scope object := by
  have foreign : ¬ Owned scope (object.index + 1) object := by
    rintro (rfl | new)
    · exact known_allBut.mp b.ready.known rfl
    · exact Nat.lt_irrefl _ new
  have same := safe.run.get?_eq b.here foreign (.inr fun held => known_allBut.mp held.2 rfl)
  refine ⟨same, b.ready.run safe.run, ?_⟩
  rw [same]
  exact b.plain

theorem register (b : w.heap.Building global scope object) {v : Value}
    (held : (allBut global object).Holds w.heap v) (name : String) :
    (w.heap.register object name v).Building global scope object := by
  have set : (allBut global object).Step (· = object) w _ := .register w object name v (.inl rfl) held
  obtain ⟨slots, built, others⟩ := b.plain
  refine ⟨b.ready.run (.single set), slots.insert name v, by simp [get?_register, built], ?_⟩
  intro entry mem
  rcases Slots.mem_insert mem with rfl | before
  · rintro rfl
    exact known_allBut.mp held.2 rfl
  · exact others entry before

/-- It makes no difference whether a property is set before something is done or after it. -/
theorem run_register (b : w.heap.Building global scope object) {v : Value}
    (held : (allBut global object).Holds w.heap v) (name : String) {m : Action ν σ α}
    {post : Heap ν → α → Prop}
    (safe : ∀ x : World ν σ, x.heap.Building global scope object →
      (allBut global object).Safe (Owned scope (object.index + 1)) x m post) :
    m { w with heap := w.heap.register object name v } =
      ((m w).1, { (m w).2 with heap := (m w).2.heap.register object name v }) := by
  have agree : w.AgreeOn (allBut global object).known
      { w with heap := w.heap.register object name v } :=
    ⟨rfl, by simp [Heap.register], fun r known =>
      get?_register_of_ne _ (known_allBut.mp known).symm name v⟩
  obtain ⟨same, after⟩ := (safe w b).blind _ agree
  have set := b.register held name
  obtain ⟨early, -⟩ := run (w := { w with heap := w.heap.register object name v }) set (safe _ set)
  obtain ⟨late, -⟩ := b.run (safe w b)
  have heaps : (m { w with heap := w.heap.register object name v }).2.heap =
      (m w).2.heap.register object name v := by
    refine ext_get? fun r => ?_
    by_cases here : r = object
    · subst here
      rw [early, get?_register, get?_register, late]
    · rw [after.get? r (known_allBut.mpr here), get?_register_of_ne _ (Ne.symm here)]
  exact Prod.ext same (congrArg₂ World.mk heaps after.sink)

end

section
variable [Sink σ] {w w' : World Builtin σ} (depth : Nat)

theorem safe_evaluate (b : w.heap.Building global scope object) (e : Expr) :
    (allBut global object).Safe (Owned scope (object.index + 1)) w (Eval.evaluate depth scope e)
      (allBut global object).Holds :=
  Eval.evaluate_careful depth scope e _ w b.ready False.elim

theorem safe_evalAll (b : w.heap.Building global scope object) (es : List Expr) :
    (allBut global object).Safe (Owned scope (object.index + 1)) w
      (Eval.evalAll (Eval.evaluate depth) scope es)
      fun h vs => ∀ v ∈ vs, (allBut global object).Holds h v :=
  Eval.evalAll_safe (Eval.evaluate_careful depth) b.ready fun _ _ => False.elim

theorem get?_evalAll (b : w.heap.Building global scope object) {es : List Expr} {vs : List Value}
    (done : Eval.evalAll (Eval.evaluate depth) scope es w = (.ok vs, w')) :
    w'.heap.get? object = w.heap.get? object := by
  have kept := (b.run (b.safe_evalAll depth es)).1
  rwa [done] at kept

/-- The value of an initializer may be held, so it is not the object. -/
theorem evaluate (b : w.heap.Building global scope object) {e : Expr} {v : Value}
    (done : Eval.evaluate depth scope e w = (.ok v, w')) :
    w'.heap.Building global scope object ∧ (allBut global object).Holds w'.heap v := by
  have safe := b.safe_evaluate depth e
  have held := safe.leaves
  have later := (b.run safe).2
  rw [done] at held later
  exact ⟨later, held⟩

/-- The properties could as well be set when all initializers have been evaluated. -/
theorem run_evalProperties (b : w.heap.Building global scope object)
    {properties : List (String × Expr)} {vs : List Value}
    (done : Eval.evalAll (Eval.evaluate depth) scope (properties.map (·.2)) w = (.ok vs, w')) :
    Eval.evalProperties (Eval.evaluate depth) scope object properties w =
      (.ok (), { w' with heap := w'.heap.registerAll object ((properties.map (·.1)).zip vs) }) := by
  induction properties generalizing w w' vs with
  | nil =>
    cases done
    rfl
  | cons p properties ih =>
    obtain ⟨v, w₁, first, rest⟩ := Action.exists_of_run_bind done
    obtain ⟨us, w₂, others, last⟩ := Action.exists_of_run_bind rest
    cases last
    obtain ⟨b₁, held⟩ := b.evaluate depth first
    -- The other initializers do not see that the first property has been set.
    have unseen := b₁.run_register held p.1 fun x bx => bx.safe_evalAll depth (properties.map (·.2))
    rw [others] at unseen
    refine (Action.run_bind_ok first _).trans ?_
    refine (Action.run_bind_ok (Eval.run_register b₁.here p.1 v) _).trans ?_
    exact ih (b₁.register held p.1) unseen

/-- Initializers that complete leave the object as one that is being built. -/
theorem evalProperties (b : w.heap.Building global scope object) {properties : List (String × Expr)}
    (done : Eval.evalProperties (Eval.evaluate depth) scope object properties w = (.ok (), w')) :
    w'.heap.Building global scope object := by
  induction properties generalizing w with
  | nil =>
    cases done
    exact b
  | cons p properties ih =>
    obtain ⟨v, w₁, first, rest⟩ := Action.exists_of_run_bind done
    obtain ⟨b₁, held⟩ := b.evaluate depth first
    rw [Action.run_bind_ok (Eval.run_register b₁.here p.1 v)] at rest
    exact ih (b₁.register held p.1) rest

end

end Heap.Building

/-- Evaluating the expression neither sees the object nor changes it, and nobody gets hold of it. -/
structure Eval.Oblivious [Sink σ] (depth : Nat) (scope : Ref) (e : Expr) (object : Ref)
    (w : World Builtin σ) : Prop where
  unchanged : (Eval.evaluate depth scope e w).2.heap.get? object = w.heap.get? object
  /-- In a world in which the object is another one, the outcome is the same and so is all else. -/
  unseen : ∀ x, w.AgreeOn (· ≠ object) x →
    (Eval.evaluate depth scope e x).1 = (Eval.evaluate depth scope e w).1 ∧
    (Eval.evaluate depth scope e w).2.AgreeOn (· ≠ object) (Eval.evaluate depth scope e x).2
  withheld : .object object ∉ outcomeValues (Eval.evaluate depth scope e w).1
  unreferenced : ∀ r, ¬ (Eval.evaluate depth scope e w).2.heap.Links r object

theorem Heap.Building.oblivious [Sink σ] {global scope object : Ref} {w : World Builtin σ}
    (b : w.heap.Building global scope object) (depth : Nat) (e : Expr) :
    Eval.Oblivious depth scope e object w := by
  have safe := b.safe_evaluate depth e
  obtain ⟨same, later⟩ := b.run safe
  refine ⟨same, fun x agree => ?_, fun shown => ?_, later.not_links⟩
  · obtain ⟨outcome, after⟩ := safe.blind x (agree.mono fun _ => known_allBut.mp)
    exact ⟨outcome, after.mono fun _ => known_allBut.mpr⟩
  · exact known_allBut.mp (safe.leaves.outcomeValues _ shown).2 rfl

theorem Eval.length_of_evalAll {go : Ref → Expr → Action ν σ Value} {scope : Ref} {es : List Expr}
    {vs : List Value} {w w' : World ν σ} (done : evalAll go scope es w = (.ok vs, w')) :
    vs.length = es.length := by
  induction es generalizing vs w with
  | nil =>
    cases done
    rfl
  | cons e es ih =>
    obtain ⟨v, w₁, -, rest⟩ := Action.exists_of_run_bind done
    obtain ⟨us, w₂, others, last⟩ := Action.exists_of_run_bind rest
    cases last
    exact congrArg (· + 1) (ih others)

section
variable [Sink σ]

/-- Object literals are exactly their initializers. Let these complete, one after the other, after `O`
has been created and left without properties. Then the literal gives `O` with the names in the order in
which they come first and the values that they get last, and all else is as the initializers leave it.
None of these, at its place, can see `O` or change it. -/
theorem literal_is_its_initializers {s : Session σ} (visited : s.Visited) {scope : Ref}
    (isScope : s.world.heap.IsScope scope) {O : Ref} {h : Heap Builtin}
    (created : s.world.heap.alloc { kind := .plain } = (O, h)) (depth line : Nat)
    (properties : List (String × Expr)) :
    (s.world.heap.get? O = none ∧ (∀ r, ¬ s.world.heap.Links r O) ∧
      ∀ v, s.world.heap.Has v → v ≠ .object O) ∧
    (∀ vs w, Eval.evalAll (Eval.evaluate depth) scope (properties.map (·.2)) ⟨h, s.world.sink⟩ =
        (.ok vs, w) →
      ∃ slots w', Eval.evaluate (depth + 1) scope (.object line properties) s.world =
          (.ok (.object O), w') ∧
        w'.heap.get? O = some { kind := .plain, slots, parent := none } ∧
        slots.names = (properties.map (·.1)).eraseDups ∧
        (∀ i x, (properties.map (·.1))[i]? = some x → x ∉ (properties.map (·.1)).drop (i + 1) →
          ∃ v, vs[i]? = some v ∧ slots.get? x = some v) ∧
        w.AgreeOn (· ≠ O) w' ∧ ∀ r, ¬ w'.heap.Links r O) ∧
    ∀ before x e after w, properties = before ++ (x, e) :: after →
      Eval.evalProperties (Eval.evaluate depth) scope O before ⟨h, s.world.sink⟩ = (.ok (), w) →
      Eval.Oblivious depth scope e O w := by
  have place : O = ⟨s.world.heap.objects.size⟩ := (congrArg Prod.fst created).symm
  have b : h.Building s.global scope O := by
    cases created
    exact .new (w := s.world) visited.sound isScope
  refine ⟨⟨by simp [place, Heap.get?], ?_, ?_⟩, ?_, ?_⟩
  · rintro r ⟨o, ho, mem⟩
    rw [place] at mem
    exact Nat.lt_irrefl _ (visited.sound.wellKept.references r o ho _ mem)
  · rintro v has rfl
    rw [place] at has
    exact Nat.lt_irrefl _ has
  · intro vs w done
    have count : vs.length = (properties.map (·.1)).length := by
      simpa using Eval.length_of_evalAll done
    have set := b.run_evalProperties (w := ⟨h, s.world.sink⟩) depth done
    have started : Action.alloc { kind := .plain } s.world = (.ok O, ⟨h, s.world.sink⟩) := by
      rw [Action.alloc, created]
    -- Until the properties are set, `O` is as it was created.
    have bare : w.heap.get? O = some { kind := .plain } := by
      have kept := b.get?_evalAll (w := ⟨h, s.world.sink⟩) depth done
      cases created
      exact kept.trans (s.world.heap.get?_alloc _)
    refine ⟨Slots.empty.insertAll ((properties.map (·.1)).zip vs), _,
      (Action.run_bind_ok started _).trans ((Action.run_bind_ok set _).trans rfl), ?_, ?_, ?_, ?_, ?_⟩
    · simp [Heap.get?_registerAll, bare]
    · rw [Slots.names_empty_insertAll, List.map_fst_zip (Nat.le_of_eq count.symm)]
    · exact fun i x here last => Slots.get?_insertAll_zip _ count here last
    · refine ⟨rfl, Heap.size_registerAll _ _ _, fun r other => ?_⟩
      simp [Heap.get?_registerAll, Ne.symm other]
    · exact (b.evalProperties (w := ⟨h, s.world.sink⟩) depth set).not_links
  · rintro before x e after w - done
    exact (b.evalProperties (w := ⟨h, s.world.sink⟩) depth done).oblivious depth e

end

/-- A name that comes twice, an object inside the object, and an initializer that prints and does not
see what has been set by then. -/
theorem literal_with_repeated_name :
    ∃ (before : List (String × Expr)) (say : Expr) (h : Heap Builtin) (slots : Slots)
      (w w' : World Builtin Transcript),
    before = [("a", .literal 1 (.integer 1)), ("b", .object 1 [("c", .literal 1 (.integer 2))])] ∧
    say = .call 1 (.access 1 "print") [.literal 1 (.string "hi")] ∧
    Eval.evaluate 9 ⟨0⟩ (.object 1 (before ++ [("a", say)])) (Session.start Transcript.empty).world =
      (.ok (.object ⟨13⟩), w') ∧
    w'.heap.get? ⟨13⟩ = some { kind := .plain, slots } ∧ slots.names = ["a", "b"] ∧
    slots.get? "a" = some .undefined ∧ slots.get? "b" = some (.object ⟨14⟩) ∧
    w'.sink.texts = #["hi"] ∧
    Eval.evalProperties (Eval.evaluate 8) ⟨0⟩ ⟨13⟩ before ⟨h, Transcript.empty⟩ = (.ok (), w) ∧
    Eval.Oblivious 8 ⟨0⟩ say ⟨13⟩ w := by
  obtain ⟨before, hbefore⟩ : ∃ before : List (String × Expr), before =
    [("a", .literal 1 (.integer 1)), ("b", .object 1 [("c", .literal 1 (.integer 2))])] := ⟨_, rfl⟩
  obtain ⟨say, hsay⟩ : ∃ say : Expr,
    say = .call 1 (.access 1 "print") [.literal 1 (.string "hi")] := ⟨_, rfl⟩
  obtain ⟨h, created⟩ : ∃ h, (Session.start Transcript.empty).world.heap.alloc { kind := .plain } =
    (⟨13⟩, h) := ⟨_, rfl⟩
  obtain ⟨w₀, done, printed⟩ : ∃ w₀, Eval.evalAll (Eval.evaluate 8) ⟨0⟩
      ((before ++ [("a", say)]).map (·.2)) ⟨h, Transcript.empty⟩ =
        (.ok [.integer 1, .object ⟨14⟩, .undefined], w₀) ∧ w₀.sink.texts = #["hi"] := by
    subst hbefore hsay
    cases created
    exact ⟨_, rfl, rfl⟩
  obtain ⟨w, begun⟩ : ∃ w, Eval.evalProperties (Eval.evaluate 8) ⟨0⟩ ⟨13⟩ before
      ⟨h, Transcript.empty⟩ = (.ok (), w) := by
    subst hbefore
    cases created
    exact ⟨_, rfl⟩
  have order : (before ++ [("a", say)]).map (·.1) = ["a", "b", "a"] := by
    subst hbefore
    rfl
  have isScope : (Session.start Transcript.empty).world.heap.IsScope ⟨0⟩ := ⟨_, rfl, rfl⟩
  obtain ⟨-, given, unseen⟩ := literal_is_its_initializers (Session.Reachable.start _).visited isScope
    created
    8 1 (before ++ [("a", say)])
  obtain ⟨slots, w', literal, built, names, values, agree, -⟩ := given _ w₀ done
  rw [order] at names values
  obtain ⟨a, third, ha⟩ := values 2 "a" rfl (by decide)
  obtain ⟨b, second, hb⟩ := values 1 "b" rfl (by decide)
  exact ⟨before, say, h, slots, w, w', hbefore, hsay, literal, built, names, ha.trans third.symm,
    hb.trans second.symm, agree.sink ▸ printed, begun, unseen before "a" say [] w rfl begun⟩

end Lisplet
