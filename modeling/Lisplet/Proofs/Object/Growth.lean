import Lisplet.Object.Heap
/-!
How heaps grow. An object never changes its sort or its parent, and names are only ever added to it,
behind those that it has. Creating an object and setting a property are all that is ever done to a
heap, and both keep to this (`grows_alloc`, `grows_register`).
-/
namespace Lisplet

namespace Slots

/-- A name that is there keeps its place; a new one goes behind all others. -/
theorem map_fst_put (name : String) (value : Value) (entries : List (String × Value)) :
    (put name value entries).map (·.1) =
      if name ∈ entries.map (·.1) then entries.map (·.1) else entries.map (·.1) ++ [name] := by
  induction entries with
  | nil => rfl
  | cons entry rest ih =>
    by_cases here : entry.1 = name
    · simp [put, here]
    · have other : name ≠ entry.1 := Ne.symm here
      simp only [put, here, if_false, List.map_cons, ih, List.mem_cons, other, false_or]
      by_cases there : name ∈ rest.map (·.1)
      · rw [if_pos there, if_pos there]
      · rw [if_neg there, if_neg there, List.cons_append]

theorem names_insert (s : Slots) (name : String) (value : Value) :
    (s.insert name value).names = if name ∈ s.names then s.names else s.names ++ [name] :=
  map_fst_put name value s.entries

theorem names_insert_prefix (s : Slots) (name : String) (value : Value) :
    s.names <+: (s.insert name value).names := by
  rw [names_insert]
  split
  · exact List.prefix_refl _
  · exact List.prefix_append _ _

theorem nodup_names_insert {s : Slots} (h : s.names.Nodup) (name : String) (value : Value) :
    (s.insert name value).names.Nodup := by
  rw [names_insert]
  by_cases here : name ∈ s.names
  · rwa [if_pos here]
  · rw [if_neg here]
    refine List.pairwise_append.mpr ⟨h, List.pairwise_singleton _ _, ?_⟩
    rintro x hx y hy rfl
    exact here (List.mem_singleton.mp hy ▸ hx)

/-- What is in the slots after an insertion was there before or is what was inserted. -/
theorem mem_insert {s : Slots} {name : String} {value : Value} {entry : String × Value}
    (h : entry ∈ (s.insert name value).entries) : entry = (name, value) ∨ entry ∈ s.entries := by
  rcases s with ⟨entries⟩
  simp only [insert] at h ⊢
  induction entries with
  | nil => exact .inl (List.mem_singleton.mp h)
  | cons head rest ih =>
    by_cases here : head.1 = name
    · simp only [put, here, if_true, List.mem_cons] at h
      exact h.imp_right (List.mem_cons_of_mem _)
    · simp only [put, here, if_false, List.mem_cons] at h
      rcases h with rfl | h
      · exact .inr List.mem_cons_self
      · exact (ih h).imp_right (List.mem_cons_of_mem _)

theorem mem_of_get? {s : Slots} {name : String} {value : Value} (h : s.get? name = some value) :
    (name, value) ∈ s.entries := by
  rcases s with ⟨entries⟩
  simp only [get?] at h
  induction entries with
  | nil => cases h
  | cons head rest ih =>
    by_cases here : head.1 = name
    · simp only [find?, here, if_true, Option.some.injEq] at h
      rw [← here, ← h]
      exact List.mem_cons_self
    · simp only [find?, here, if_false] at h
      exact List.mem_cons_of_mem _ (ih h)

end Slots

variable {ν : Type}

namespace Heap

theorem lt_size_of_get? {h : Heap ν} {r : Ref} {o : Object ν} (hr : h.get? r = some o) :
    r.index < h.objects.size := by
  exact (Array.getElem?_eq_some_iff.mp hr).1

theorem exists_get? {h : Heap ν} {r : Ref} (hr : r.index < h.objects.size) :
    ∃ o, h.get? r = some o := ⟨_, Array.getElem?_eq_getElem hr⟩

/-- A heap is what its references name. -/
theorem ext_get? {h h' : Heap ν} (same : ∀ r, h.get? r = h'.get? r) : h = h' := by
  rcases h with ⟨objects⟩
  rcases h' with ⟨objects'⟩
  exact congrArg Heap.mk (Array.ext_getElem? fun i => same ⟨i⟩)

/-- What is in a heap after an object was created is that object or was there before. -/
theorem get?_alloc_eq_some {h : Heap ν} {o p : Object ν} {r : Ref}
    (hr : (h.alloc o).2.get? r = some p) :
    h.get? r = some p ∨ r = ⟨h.objects.size⟩ ∧ p = o := by
  by_cases old : r.index < h.objects.size
  · rw [get?_alloc_of_lt h o old] at hr
    exact .inl hr
  · have bound := lt_size_of_get? hr
    simp only [alloc, Array.size_push] at bound
    have new : r = ⟨h.objects.size⟩ := by
      rcases r with ⟨i⟩
      simp only at old bound
      rw [Nat.le_antisymm (Nat.le_of_lt_succ bound) (Nat.not_lt.mp old)]
    refine .inr ⟨new, ?_⟩
    rw [new] at hr
    exact Option.some.inj (hr.symm.trans (get?_alloc h o))

@[simp] theorem size_register (h : Heap ν) (r : Ref) (name : String) (value : Value) :
    (h.register r name value).objects.size = h.objects.size := Array.size_modify

theorem get?_register_of_ne (h : Heap ν) {r p : Ref} (apart : r ≠ p) (name : String)
    (value : Value) : (h.register r name value).get? p = h.get? p := by
  rw [get?_register]
  simp [apart]

end Heap

/-- The later object is the earlier one, perhaps with other values and further names. -/
structure Object.Grows (o o' : Object ν) : Prop where
  kind : o'.kind = o.kind
  parent : o'.parent = o.parent
  names : o.slots.names <+: o'.slots.names

/-- Every object of the first heap is still there in the second. -/
def Heap.Grows (h h' : Heap ν) : Prop :=
  ∀ r o, h.get? r = some o → ∃ o', h'.get? r = some o' ∧ o.Grows o'

theorem Object.Grows.refl (o : Object ν) : o.Grows o := ⟨rfl, rfl, List.prefix_refl _⟩

theorem Object.Grows.trans {o₁ o₂ o₃ : Object ν} (h : o₁.Grows o₂) (h' : o₂.Grows o₃) :
    o₁.Grows o₃ :=
  ⟨h'.kind.trans h.kind, h'.parent.trans h.parent, h.names.trans h'.names⟩

namespace Heap

theorem Grows.refl (h : Heap ν) : h.Grows h := fun _ o ho => ⟨o, ho, .refl o⟩

theorem Grows.trans {h₁ h₂ h₃ : Heap ν} (h : h₁.Grows h₂) (h' : h₂.Grows h₃) : h₁.Grows h₃ := by
  intro r o ho
  obtain ⟨o₂, ho₂, g⟩ := h r o ho
  obtain ⟨o₃, ho₃, g'⟩ := h' r o₂ ho₂
  exact ⟨o₃, ho₃, g.trans g'⟩

theorem Grows.size_le {h h' : Heap ν} (g : h.Grows h') : h.objects.size ≤ h'.objects.size := by
  by_cases none : h.objects.size = 0
  · omega
  · obtain ⟨o, ho⟩ := exists_get? (h := h) (r := ⟨h.objects.size - 1⟩) (by simp only; omega)
    obtain ⟨o', ho', -⟩ := g _ o ho
    have := lt_size_of_get? ho'
    simp only at this
    omega

theorem grows_alloc (h : Heap ν) (o : Object ν) : h.Grows (h.alloc o).2 := by
  intro r p hp
  exact ⟨p, (h.get?_alloc_of_lt o (lt_size_of_get? hp)).trans hp, .refl p⟩

theorem grows_register (h : Heap ν) (r : Ref) (name : String) (value : Value) :
    h.Grows (h.register r name value) := by
  intro p o ho
  rw [get?_register, ho]
  by_cases here : r = p
  · rw [Option.map_some, if_pos here]
    exact ⟨_, rfl, rfl, rfl, o.slots.names_insert_prefix name value⟩
  · rw [Option.map_some, if_neg here]
    exact ⟨o, rfl, .refl o⟩

end Heap
end Lisplet
