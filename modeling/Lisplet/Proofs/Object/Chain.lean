import Lisplet.Proofs.Object.Growth
/-!
Delegation. The chain of an object is the object, its parent, the parent of that and so on. Where
parents are older than their children every object has one (`Ordered.exists_chain`), and looking a
name up is to search the chain for the first object that owns it (`lookup?_eq_of_chain`).
-/
namespace Lisplet

variable {ν : Type}

namespace Heap

/-- The object and all that it delegates to, nearest first. -/
inductive Chain (h : Heap ν) : Ref → List Ref → Prop where
  | last {r : Ref} {o : Object ν} (here : h.get? r = some o) (alone : o.parent = none) :
      Chain h r [r]
  | link {r p : Ref} {o : Object ν} {rs : List Ref} (here : h.get? r = some o)
      (parent : o.parent = some p) (tail : Chain h p rs) : Chain h r (r :: rs)

/-- The value that the object itself has under the name. -/
def own? (h : Heap ν) (name : String) (r : Ref) : Option Value :=
  (h.get? r).bind (·.slots.get? name)

/-- Parents are older than their children. -/
def Ordered (h : Heap ν) : Prop := ∀ r o, h.get? r = some o → ∀ p ∈ o.parent, p.index < r.index

theorem Ordered.exists_chain {h : Heap ν} (ordered : h.Ordered) {r : Ref}
    (hr : r.index < h.objects.size) : ∃ rs, h.Chain r rs := by
  rcases r with ⟨i⟩
  induction i using Nat.strongRecOn with
  | ind i ih =>
    obtain ⟨o, ho⟩ := exists_get? hr
    cases hp : o.parent with
    | none => exact ⟨[⟨i⟩], .last ho hp⟩
    | some p =>
      have older := ordered ⟨i⟩ o ho p hp
      obtain ⟨rs, tail⟩ := ih p.index older (Nat.lt_trans older hr)
      exact ⟨⟨i⟩ :: rs, .link ho hp tail⟩

/-- The place of an object bounds the length of its chain. -/
theorem Ordered.length_chain_le {h : Heap ν} (ordered : h.Ordered) {r : Ref} {rs : List Ref}
    (chain : h.Chain r rs) : rs.length ≤ r.index + 1 := by
  induction chain with
  | last => simp
  | link here parent tail ih =>
    have older := ordered _ _ here _ parent
    simp only [List.length_cons]
    omega

theorem lookupWithin_eq_of_chain {h : Heap ν} {r : Ref} {rs : List Ref} (chain : h.Chain r rs)
    (name : String) {fuel : Nat} (enough : rs.length ≤ fuel) :
    h.lookupWithin name fuel r = some ((rs.findSome? (h.own? name)).getD .undefined) := by
  induction chain generalizing fuel with
  | @last r o here alone =>
    obtain ⟨n, rfl⟩ := Nat.exists_eq_add_of_le' enough
    cases own : o.slots.get? name with
    | none => simp [lookupWithin, own?, here, own, alone]
    | some v => simp [lookupWithin, own?, here, own]
  | @link r p o rs here parent tail ih =>
    obtain ⟨n, rfl⟩ := Nat.exists_eq_add_of_le' enough
    cases own : o.slots.get? name with
    | none =>
      have deeper : h.lookupWithin name (n + rs.length) p = _ := ih (by omega)
      simpa [lookupWithin, own?, here, own, parent, ← Nat.add_assoc] using deeper
    | some v => simp [lookupWithin, own?, here, own, ← Nat.add_assoc]

/-- A name is looked up in the objects of the chain one after the other. -/
theorem lookup?_eq_of_chain {h : Heap ν} (ordered : h.Ordered) {r : Ref} {rs : List Ref}
    (chain : h.Chain r rs) (name : String) :
    h.lookup? r name = some ((rs.findSome? (h.own? name)).getD .undefined) :=
  lookupWithin_eq_of_chain chain name (ordered.length_chain_le chain)

/-- Looking a name up depends only on the objects of the chain. -/
theorem lookupWithin_congr {h h' : Heap ν} {r : Ref} {rs : List Ref} (chain : h.Chain r rs)
    (same : ∀ q ∈ rs, h'.get? q = h.get? q) (name : String) (fuel : Nat) :
    h'.lookupWithin name fuel r = h.lookupWithin name fuel r := by
  induction chain generalizing fuel with
  | last here alone =>
    cases fuel with
    | zero => rfl
    | succ fuel => simp only [lookupWithin, same _ List.mem_cons_self, here, alone]
  | link here parent _ ih =>
    cases fuel with
    | zero => rfl
    | succ fuel =>
      have above := ih (fun q hq => same q (List.mem_cons_of_mem _ hq)) fuel
      simp only [lookupWithin, same _ List.mem_cons_self, here, parent, above]

theorem own?_eq_some {h : Heap ν} {name : String} {r : Ref} {v : Value}
    (found : h.own? name r = some v) : ∃ o, h.get? r = some o ∧ (name, v) ∈ o.slots.entries := by
  obtain ⟨o, ho, hv⟩ := Option.bind_eq_some_iff.mp found
  exact ⟨o, ho, Slots.mem_of_get? hv⟩

/-- Setting a property changes what one object owns under one name. -/
theorem own?_register (h : Heap ν) (o : Ref) (n : String) (v : Value) (m : String) (r : Ref) :
    (h.register o n v).own? m r =
      if r.index < h.objects.size ∧ o = r ∧ n = m then some v else h.own? m r := by
  by_cases here : r.index < h.objects.size
  · obtain ⟨before, found⟩ := exists_get? here
    by_cases same : o = r
    · simp [own?, get?_register, found, here, same, Slots.get?_insert]
    · simp [own?, get?_register, found, same]
  · have none : h.get? r = none := Array.getElem?_eq_none (Nat.not_lt.mp here)
    simp [own?, get?_register, none, here]

theorem own?_register_same {h : Heap ν} {r : Ref} (here : r.index < h.objects.size)
    (name : String) (v : Value) : (h.register r name v).own? name r = some v := by
  rw [own?_register, if_pos ⟨here, rfl, rfl⟩]

end Heap
end Lisplet
