import Lisplet.Proofs.Object.History
/-!
Setting a property, as seen from any object. What a look-up gives depends on the chains and on what
each object owns, and on nothing else (`lookupWithin_eq_of_own?`, `lookup?_eq_of_chain`). Setting a
property leaves all chains as they are and changes what one object owns under one name
(`own?_register`). So the objects that see the new value are those whose chains come to the object
before they come to another one that owns the name (`Sees`), and two properties may be set in either
order.

Parents are there when their children are created. So all heaps that come about by possible changes
have chains that end (`Ordered.changes`).
-/
namespace Lisplet

variable {ν : Type}

namespace Heap

/-- The same objects are there, with the same parents. -/
def SameParents (h h' : Heap ν) : Prop :=
  ∀ r, (h'.get? r).map (·.parent) = (h.get? r).map (·.parent)

theorem sameParents_register (h : Heap ν) (o : Ref) (n : String) (v : Value) :
    h.SameParents (h.register o n v) := by
  intro r
  rw [get?_register, Option.map_map]
  congr 1
  funext before
  by_cases same : o = r <;> simp [same]

section
variable {h h' : Heap ν} (same : h.SameParents h')
include same

theorem SameParents.exists_get? {r : Ref} {o : Object ν} (found : h.get? r = some o) :
    ∃ o', h'.get? r = some o' ∧ o'.parent = o.parent := by
  have parent := same r
  rw [found] at parent
  exact Option.map_eq_some_iff.mp parent

theorem Chain.sameParents {p : Ref} {rs : List Ref} (chain : h.Chain p rs) : h'.Chain p rs := by
  induction chain with
  | last here alone =>
    obtain ⟨o', here', parent⟩ := same.exists_get? here
    exact .last here' (parent.trans alone)
  | link here delegates _ ih =>
    obtain ⟨o', here', parent⟩ := same.exists_get? here
    exact .link here' (parent.trans delegates) ih

theorem Ordered.sameParents (ordered : h.Ordered) : h'.Ordered := by
  intro r o' found' p hp
  have parent := same r
  rw [found'] at parent
  obtain ⟨o, found, delegates⟩ := Option.map_eq_some_iff.mp parent.symm
  exact ordered r o found p (delegates.trans hp)

/-- Looking a name up depends on parents and on what is owned under the name. -/
theorem lookupWithin_eq_of_own? {name : String} (own : ∀ r, h'.own? name r = h.own? name r)
    (fuel : Nat) (r : Ref) : h'.lookupWithin name fuel r = h.lookupWithin name fuel r := by
  induction fuel generalizing r with
  | zero => rfl
  | succ fuel ih =>
    have parent := same r
    have slots := own r
    unfold own? at slots
    rw [lookupWithin, lookupWithin]
    cases found : h.get? r with
    | none =>
      rw [found] at parent
      rw [Option.map_eq_none_iff.mp parent]
    | some o =>
      obtain ⟨o', found', delegates⟩ := same.exists_get? found
      rw [found, found'] at slots
      have slots' : o'.slots.get? name = o.slots.get? name := slots
      simp only [found', slots', delegates, ih]

end

/-! Histories. -/

/-- An object is created behind those that are there, and parents do not change. -/
theorem Ordered.change {h : Heap ν} (ordered : h.Ordered) {c : Change ν} (possible : c.Possible h) :
    (h.change c).Ordered := by
  cases c with
  | create kind parent =>
    intro r o ho p hp
    rcases get?_alloc_eq_some ho with old | ⟨rfl, rfl⟩
    · exact ordered r o old p hp
    · exact possible p hp
  | register object name value =>
    exact ordered.sameParents (h.sameParents_register object name value)

theorem Ordered.changes {h : Heap ν} (ordered : h.Ordered) {cs : List (Change ν)}
    (possible : h.Possible cs) : (h.changes cs).Ordered := by
  induction cs generalizing h with
  | nil => exact ordered
  | cons c cs ih => exact ih (ordered.change possible.1) possible.2

theorem ordered_empty : (empty : Heap ν).Ordered := by
  intro r o ho
  simp [get?, empty] at ho

/-! Setting a property. -/

/-- The object `o` is on the chain of `p`, and nothing that comes before it there owns the name. -/
def Sees (h : Heap ν) (p o : Ref) (n : String) : Prop :=
  ∃ front back, h.Chain p (front ++ o :: back) ∧ ∀ q ∈ front, h.own? n q = none

/-- A chain that comes to the object before it comes to another owner of the name leads to the new
value. -/
theorem findSome?_register_seen {h : Heap ν} {o : Ref} (there : o.index < h.objects.size) {n : String}
    (v : Value) {front : List Ref} (back : List Ref) (hidden : ∀ q ∈ front, h.own? n q = none) :
    (front ++ o :: back).findSome? ((h.register o n v).own? n) = some v := by
  induction front with
  | nil => rw [List.nil_append, List.findSome?_cons, own?_register_same there]
  | cons q front ih =>
    obtain ⟨first, later⟩ := List.forall_mem_cons.mp hidden
    rw [List.cons_append, List.findSome?_cons, own?_register, first]
    by_cases here : o = q
    · subst here
      rw [if_pos ⟨there, rfl, rfl⟩]
    · rw [if_neg fun set => here set.2.1]
      exact ih later

/-- Any other chain leads to the same value as before. -/
theorem findSome?_register_unseen (h : Heap ν) {o : Ref} {n : String} (v : Value) {rs : List Ref}
    (hidden : ¬∃ front back, rs = front ++ o :: back ∧ ∀ q ∈ front, h.own? n q = none) :
    rs.findSome? ((h.register o n v).own? n) = rs.findSome? (h.own? n) := by
  induction rs with
  | nil => rfl
  | cons r rs ih =>
    have other : o ≠ r := by
      rintro rfl
      exact hidden ⟨[], rs, rfl, by simp⟩
    rw [List.findSome?_cons, List.findSome?_cons, own?_register, if_neg fun set => other set.2.1]
    cases owned : h.own? n r with
    | some w => rfl
    | none =>
      refine ih ?_
      rintro ⟨front, back, rfl, none⟩
      exact hidden ⟨r :: front, back, rfl, List.forall_mem_cons.mpr ⟨owned, none⟩⟩

/-- Those that see the object find the new value. -/
theorem lookup?_register_of_sees {h : Heap ν} (ordered : h.Ordered) {p o : Ref} {n : String}
    (sees : h.Sees p o n) (v : Value) : (h.register o n v).lookup? p n = some v := by
  obtain ⟨front, back, chain, hidden⟩ := sees
  have same := h.sameParents_register o n v
  have there : o.index < h.objects.size := chain.lt_size o (by simp)
  rw [lookup?_eq_of_chain (ordered.sameParents same) (chain.sameParents same),
    findSome?_register_seen there v back hidden]
  rfl

/-- All others find what they found before. -/
theorem lookup?_register_of_not_sees {h : Heap ν} (ordered : h.Ordered) {p o : Ref} {n m : String}
    (unseen : ¬(m = n ∧ h.Sees p o n)) (v : Value) :
    (h.register o n v).lookup? p m = h.lookup? p m := by
  have same := h.sameParents_register o n v
  by_cases name : m = n
  · subst name
    by_cases here : p.index < h.objects.size
    · obtain ⟨rs, chain⟩ := ordered.exists_chain here
      have hidden : ¬∃ front back, rs = front ++ o :: back ∧ ∀ q ∈ front, h.own? m q = none := by
        rintro ⟨front, back, rfl, none⟩
        exact unseen ⟨rfl, front, back, chain, none⟩
      rw [lookup?_eq_of_chain (ordered.sameParents same) (chain.sameParents same),
        lookup?_eq_of_chain ordered chain, findSome?_register_unseen h v hidden]
    · have none : h.get? p = none := Array.getElem?_eq_none (Nat.not_lt.mp here)
      simp [lookup?, lookupWithin, get?_register, none]
  · refine lookupWithin_eq_of_own? same (fun r => ?_) _ p
    rw [own?_register, if_neg fun set => name set.2.2.symm]

/-- Properties that are not the same may be set in either order. The order in which an object lists
them is another matter. -/
theorem lookup?_register_comm (h : Heap ν) {o o' : Ref} {n n' : String} (apart : o ≠ o' ∨ n ≠ n')
    (v v' : Value) (p : Ref) (m : String) :
    ((h.register o n v).register o' n' v').lookup? p m =
      ((h.register o' n' v').register o n v).lookup? p m := by
  have parents : ((h.register o' n' v').register o n v).SameParents
      ((h.register o n v).register o' n' v') := by
    intro r
    rw [sameParents_register _ o' n' v' r, sameParents_register h o n v r,
      sameParents_register _ o n v r, sameParents_register h o' n' v' r]
  refine lookupWithin_eq_of_own? parents (fun r => ?_) _ p
  simp only [own?_register, size_register]
  by_cases first : r.index < h.objects.size ∧ o = r ∧ n = m
  · have second : ¬(r.index < h.objects.size ∧ o' = r ∧ n' = m) := by
      rintro ⟨-, rfl, rfl⟩
      rcases apart with object | name
      · exact object first.2.1
      · exact name first.2.2
    rw [if_pos first, if_neg second, if_pos first]
  · rw [if_neg first, if_neg first]

end Heap

/-- Looking names up obeys the law of delegation. In every heap that comes about by creating
objects, with parents that are there, and by setting properties, a look-up in an object gives a
value. After a property of `o` has been set, it gives the new value under this name if the object
sees `o`, and in all other cases the value that it gave before. Two properties that are not the same
may be set in either order. -/
theorem delegation_law {cs : List (Change ν)} (possible : Heap.empty.Possible cs) :
    let h := Heap.empty.changes cs
    (∀ p m, p.index < h.objects.size → ∃ w, h.lookup? p m = some w) ∧
    (∀ o p n m v,
      (m = n ∧ h.Sees p o n → (h.register o n v).lookup? p m = some v) ∧
      (¬(m = n ∧ h.Sees p o n) → (h.register o n v).lookup? p m = h.lookup? p m)) ∧
    ∀ o o' n n' v v', o ≠ o' ∨ n ≠ n' → ∀ p m,
      ((h.register o n v).register o' n' v').lookup? p m =
        ((h.register o' n' v').register o n v).lookup? p m := by
  intro h
  have ordered : h.Ordered := Heap.ordered_empty.changes possible
  refine ⟨?_, ?_, ?_⟩
  · intro p m here
    obtain ⟨rs, chain⟩ := ordered.exists_chain here
    exact ⟨_, Heap.lookup?_eq_of_chain ordered chain m⟩
  · intro o p n m v
    constructor
    · rintro ⟨rfl, sees⟩
      exact Heap.lookup?_register_of_sees ordered sees v
    · exact fun unseen => Heap.lookup?_register_of_not_sees ordered unseen v
  · intro o o' n n' v v' apart p m
    exact h.lookup?_register_comm apart v v' p m

/-- Three scopes, one inside the other. The outermost one owns `x`, and the innermost one holds a
reference to it. A new `x` in the middle is seen from inside and not from outside. -/
theorem delegation_law_middle : ∃ cs : List (Change Unit), Heap.empty.Possible cs ∧
    (Heap.empty.changes cs).Sees ⟨2⟩ ⟨1⟩ "x" ∧
    ((Heap.empty.changes cs).register ⟨1⟩ "x" (.integer 7)).lookup? ⟨2⟩ "x" = some (.integer 7) ∧
    ((Heap.empty.changes cs).register ⟨1⟩ "x" (.integer 7)).lookup? ⟨0⟩ "x" =
      (Heap.empty.changes cs).lookup? ⟨0⟩ "x" ∧
    (Heap.empty.changes cs).lookup? ⟨0⟩ "x" = some (.integer 1) ∧
    (((Heap.empty.changes cs).register ⟨1⟩ "x" (.integer 7)).register ⟨1⟩ "y" (.integer 8)).lookup?
        ⟨2⟩ "x" =
      (((Heap.empty.changes cs).register ⟨1⟩ "y" (.integer 8)).register ⟨1⟩ "x" (.integer 7)).lookup?
        ⟨2⟩ "x" := by
  obtain ⟨cs, hcs⟩ : ∃ cs : List (Change Unit), cs = [.create .environment none,
      .create .environment (some ⟨0⟩), .create .environment (some ⟨1⟩),
      .register ⟨0⟩ "x" (.integer 1), .register ⟨2⟩ "up" (.object ⟨0⟩)] := ⟨_, rfl⟩
  have possible : Heap.empty.Possible cs := by
    subst hcs
    simp [Heap.Possible, Change.Possible, Heap.change, Heap.alloc, Heap.empty, Heap.register]
  have top : ∃ slots, (Heap.empty.changes cs).get? ⟨0⟩ = some { kind := .environment, slots } := by
    subst hcs
    exact ⟨_, rfl⟩
  obtain ⟨slots, top⟩ := top
  have sees : (Heap.empty.changes cs).Sees ⟨2⟩ ⟨1⟩ "x" := by
    refine ⟨[⟨2⟩], [⟨0⟩], ?_, List.forall_mem_singleton.mpr ?_⟩
    · subst hcs
      exact .link rfl rfl (.link rfl rfl (.last rfl rfl))
    · subst hcs
      rfl
  have unseen : ¬("x" = "x" ∧ (Heap.empty.changes cs).Sees ⟨0⟩ ⟨1⟩ "x") := by
    rintro ⟨-, front, back, chain, -⟩
    generalize rest : front ++ ⟨1⟩ :: back = rs at chain
    cases chain with
    | last =>
      have mem : (⟨1⟩ : Ref) ∈ [(⟨0⟩ : Ref)] := rest ▸ by simp
      exact absurd mem (by decide)
    | link here parent =>
      obtain rfl := Option.some.inj (top.symm.trans here)
      cases parent
  obtain ⟨-, law, commute⟩ := delegation_law possible
  refine ⟨cs, possible, sees, (law _ _ _ _ _).1 ⟨rfl, sees⟩, (law _ _ _ _ _).2 unseen, ?_, ?_⟩
  · subst hcs
    rfl
  · exact commute _ _ _ _ _ _ (.inr (by decide)) _ _

end Lisplet
