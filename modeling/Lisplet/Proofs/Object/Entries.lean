import Lisplet.Proofs.Object.Chain
/-!
Properties that are set one after the other. A name is listed where it is first set and has the value
that it is given last (`names_insertAll`, `get?_insertAll_zip`); names that are not set keep theirs.

A new object hides the names that it owns. All others it has from its parent, as they were there when
it was created and as long as nothing else has changed (`lookup?_newest`).
-/
namespace Lisplet

namespace Slots

/-- Set the entries one after the other. -/
def insertAll (s : Slots) (entries : List (String × Value)) : Slots :=
  entries.foldl (fun s entry => s.insert entry.1 entry.2) s

@[simp] theorem insertAll_nil (s : Slots) : s.insertAll [] = s := rfl

@[simp] theorem insertAll_cons (s : Slots) (entry : String × Value)
    (entries : List (String × Value)) :
    s.insertAll (entry :: entries) = (s.insert entry.1 entry.2).insertAll entries := rfl

theorem get?_insertAll_other (s : Slots) {entries : List (String × Value)} {name : String}
    (unset : name ∉ entries.map (·.1)) : (s.insertAll entries).get? name = s.get? name := by
  induction entries generalizing s with
  | nil => rfl
  | cons entry entries ih =>
    have other : entry.1 ≠ name := fun same => unset (same ▸ List.mem_cons_self)
    have later : name ∉ entries.map (·.1) := fun mem => unset (List.mem_cons_of_mem _ mem)
    rw [insertAll_cons, ih _ later, get?_insert_other s entry.2 other]

/-- Of several values for one name the last one counts. -/
theorem get?_insertAll_zip (s : Slots) {names : List String} {values : List Value}
    (count : values.length = names.length) {i : Nat} {name : String} (here : names[i]? = some name)
    (last : name ∉ names.drop (i + 1)) :
    ∃ v, values[i]? = some v ∧ (s.insertAll (names.zip values)).get? name = some v := by
  induction names generalizing values s i with
  | nil => cases here
  | cons n names ih =>
    obtain ⟨v, values, rfl⟩ := List.exists_cons_of_length_eq_add_one count
    have count' : values.length = names.length := Nat.succ.inj count
    rw [List.zip_cons_cons, insertAll_cons]
    cases i with
    | zero =>
      obtain rfl : n = name := Option.some.inj here
      have unset : n ∉ (names.zip values).map (·.1) := by
        rwa [List.map_fst_zip (Nat.le_of_eq count'.symm)]
      exact ⟨v, rfl, by rw [get?_insertAll_other _ unset, get?_insert_same]⟩
    | succ i => exact ih _ count' here last

/-- Names are listed in the order in which they are first set. -/
theorem names_insertAll (s : Slots) (entries : List (String × Value)) :
    (s.insertAll entries).names =
      s.names ++ ((entries.map (·.1)).filter (· ∉ s.names)).eraseDups := by
  induction entries generalizing s with
  | nil => simp
  | cons entry entries ih =>
    rw [insertAll_cons, ih, names_insert]
    by_cases here : entry.1 ∈ s.names
    · simp [here]
    · have rest : (entries.map (·.1)).filter (fun n => decide (n ∉ s.names ++ [entry.1])) =
          ((entries.map (·.1)).filter (fun n => decide (n ∉ s.names))).filter
            fun n => !n == entry.1 := by
        rw [List.filter_filter]
        refine List.filter_congr fun n _ => ?_
        by_cases same : n = entry.1 <;> simp [same, here]
      rw [if_neg here, rest, List.map_cons, List.filter_cons_of_pos (by simpa using here),
        List.eraseDups_cons, List.append_assoc, List.singleton_append]

theorem names_empty_insertAll (entries : List (String × Value)) :
    (empty.insertAll entries).names = (entries.map (·.1)).eraseDups := by
  have all : (entries.map (·.1)).filter (· ∉ empty.names) = entries.map (·.1) :=
    List.filter_eq_self.mpr fun _ _ => by simp [names, empty]
  rw [names_insertAll, all]
  rfl

theorem mem_insertAll {s : Slots} {entries : List (String × Value)} {entry : String × Value}
    (h : entry ∈ (s.insertAll entries).entries) : entry ∈ entries ∨ entry ∈ s.entries := by
  induction entries generalizing s with
  | nil => exact .inr h
  | cons first entries ih =>
    rcases ih h with later | before
    · exact .inl (List.mem_cons_of_mem _ later)
    · rcases mem_insert before with rfl | before
      · exact .inl List.mem_cons_self
      · exact .inr before

end Slots

variable {ν : Type}

namespace Heap

theorem get?_alloc_eq_ite (h : Heap ν) (o : Object ν) (r : Ref) :
    (h.alloc o).2.get? r = if r = ⟨h.objects.size⟩ then some o else h.get? r := by
  rcases r with ⟨i⟩
  simp only [alloc, get?, Array.getElem?_push, Ref.mk.injEq]

/-- Set properties of the object one after the other. -/
def registerAll (h : Heap ν) (r : Ref) (entries : List (String × Value)) : Heap ν :=
  entries.foldl (fun h entry => h.register r entry.1 entry.2) h

theorem get?_registerAll (h : Heap ν) (r p : Ref) (entries : List (String × Value)) :
    (h.registerAll r entries).get? p = (h.get? p).map fun o =>
      if r = p then { o with slots := o.slots.insertAll entries } else o := by
  induction entries generalizing h with
  | nil => simp [registerAll]
  | cons entry entries ih =>
    have step : h.registerAll r (entry :: entries) =
      (h.register r entry.1 entry.2).registerAll r entries := rfl
    rw [step, ih, get?_register, Option.map_map]
    congr 1
    funext o
    by_cases here : r = p <;> simp [here]

theorem size_registerAll (h : Heap ν) (r : Ref) (entries : List (String × Value)) :
    (h.registerAll r entries).objects.size = h.objects.size := by
  induction entries generalizing h with
  | nil => rfl
  | cons entry entries ih =>
    refine (ih (h.register r entry.1 entry.2)).trans ?_
    simp [register]

theorem Chain.lt_size {h : Heap ν} {r : Ref} {rs : List Ref} (chain : h.Chain r rs) :
    ∀ q ∈ rs, q.index < h.objects.size := by
  induction chain with
  | last here _ => exact List.forall_mem_singleton.mpr (lt_size_of_get? here)
  | link here _ _ ih => exact List.forall_mem_cons.mpr ⟨lt_size_of_get? here, ih⟩

/-- Names that the newest object does not own it has from its parent. -/
theorem lookup?_newest {h h' : Heap ν} (ordered : h.Ordered) {p : Ref}
    (here : p.index < h.objects.size)
    (same : ∀ r : Ref, r.index < h.objects.size → h'.get? r = h.get? r) {o : Object ν}
    (created : h'.get? ⟨h.objects.size⟩ = some o) (parent : o.parent = some p) (name : String) :
    h'.lookup? ⟨h.objects.size⟩ name = (o.slots.get? name).or (h.lookup? p name) := by
  obtain ⟨rs, chain⟩ := ordered.exists_chain here
  have length := ordered.length_chain_le chain
  have above : h'.lookupWithin name h.objects.size p = h.lookup? p name :=
    calc h'.lookupWithin name h.objects.size p
      _ = h.lookupWithin name h.objects.size p :=
        lookupWithin_congr chain (fun q hq => same q (chain.lt_size q hq)) name _
      _ = some ((rs.findSome? (h.own? name)).getD .undefined) :=
        lookupWithin_eq_of_chain chain name (by omega)
      _ = h.lookup? p name := (lookup?_eq_of_chain ordered chain name).symm
  simp only [lookup?, lookupWithin, created, parent]
  cases o.slots.get? name with
  | none => exact above
  | some v => rfl

end Heap
end Lisplet
