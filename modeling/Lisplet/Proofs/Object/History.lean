import Lisplet.Proofs.Object.Entries
/-!
Histories of heaps. Creating an object and setting a property are all that is done to a heap, so a
heap is what a list of such changes makes of an earlier one (`Heap.changes`).

Of all changes only those that set its own properties matter to an object (`Heap.get?_changes`).
Each name is listed once, where it was first set (`Slots.names_empty_insertAll`), with the value
that it was given last (`Slots.mem_empty_insertAll_iff`).
-/
namespace Lisplet

variable {ν : Type}

/-- What can be done to a heap. -/
inductive Change (ν : Type) where
  | create (kind : Kind ν) (parent : Option Ref)
  | register (object : Ref) (name : String) (value : Value)

namespace Change

/-- The property that the change sets on the object. -/
def write? (r : Ref) : Change ν → Option (String × Value)
  | .create _ _ => none
  | .register object name value => if object = r then some (name, value) else none

/-- The object that the change is about is there, and so is the parent of a new object. -/
def Possible (h : Heap ν) : Change ν → Prop
  | .create _ parent => ∀ p ∈ parent, p.index < h.objects.size
  | .register object _ _ => object.index < h.objects.size

end Change

/-- The properties that are set on the object, one after the other. -/
def writes (r : Ref) (cs : List (Change ν)) : List (String × Value) := cs.filterMap (·.write? r)

/-- Leaving out what sets no property of the object leaves out none of them. -/
theorem writes_filter (r : Ref) (cs : List (Change ν)) :
    writes r (cs.filter fun c => (c.write? r).isSome) = writes r cs := by
  have same : (fun c : Change ν => if (c.write? r).isSome then c.write? r else none) =
      fun c => c.write? r := by
    funext c
    cases c.write? r <;> rfl
  rw [writes, writes, List.filterMap_filter, same]

namespace Heap

def change (h : Heap ν) : Change ν → Heap ν
  | .create kind parent => (h.alloc { kind, parent }).2
  | .register object name value => h.register object name value

/-- Make the changes one after the other. -/
def changes (h : Heap ν) (cs : List (Change ν)) : Heap ν := cs.foldl change h

/-- Each of the changes is possible when it is made. -/
def Possible (h : Heap ν) : List (Change ν) → Prop
  | [] => True
  | c :: cs => c.Possible h ∧ Possible (h.change c) cs

@[simp] theorem changes_nil (h : Heap ν) : h.changes [] = h := rfl
@[simp] theorem changes_cons (h : Heap ν) (c : Change ν) (cs : List (Change ν)) :
    h.changes (c :: cs) = (h.change c).changes cs := rfl

theorem size_le_change (h : Heap ν) (c : Change ν) :
    h.objects.size ≤ (h.change c).objects.size := by
  cases c with
  | create kind parent => simp [change, alloc]
  | register object name value => simp [change]

/-- A change sets at most one property of an object, and does nothing else to it. -/
theorem get?_change {h : Heap ν} {r : Ref} (here : r.index < h.objects.size) (c : Change ν) :
    (h.change c).get? r = (h.get? r).map fun o =>
      { o with slots := o.slots.insertAll (c.write? r).toList } := by
  cases c with
  | create kind parent => simp [change, get?_alloc_of_lt h _ here, Change.write?]
  | register object name value =>
    rw [change, get?_register]
    by_cases same : object = r
    · simp [Change.write?, same]
    · simp [Change.write?, same]

/-- All that happens to an object is that its properties are set. -/
theorem get?_changes {h : Heap ν} {r : Ref} (here : r.index < h.objects.size)
    (cs : List (Change ν)) : (h.changes cs).get? r = (h.get? r).map fun o =>
      { o with slots := o.slots.insertAll (writes r cs) } := by
  induction cs generalizing h with
  | nil => simp [writes]
  | cons c cs ih =>
    have later := Nat.lt_of_lt_of_le here (h.size_le_change c)
    rw [changes_cons, ih later, get?_change here, Option.map_map]
    congr 1
    funext o
    cases set : c.write? r <;> simp [writes, set]

end Heap

namespace Slots

theorem nodup_names_empty : empty.names.Nodup := List.nodup_nil

theorem nodup_names_insertAll {s : Slots} (distinct : s.names.Nodup)
    (entries : List (String × Value)) : (s.insertAll entries).names.Nodup := by
  induction entries generalizing s with
  | nil => exact distinct
  | cons entry entries ih => exact ih (nodup_names_insert distinct entry.1 entry.2)

/-- Where no name is listed twice, an entry is found under its name. -/
theorem get?_of_mem {s : Slots} (distinct : s.names.Nodup) {name : String} {v : Value}
    (mem : (name, v) ∈ s.entries) : s.get? name = some v := by
  rcases s with ⟨entries⟩
  simp only [get?, names] at mem distinct ⊢
  induction entries with
  | nil => cases mem
  | cons head rest ih =>
    obtain ⟨new, others⟩ := List.nodup_cons.mp distinct
    rcases List.mem_cons.mp mem with rfl | later
    · simp [find?]
    · have listed : name ∈ rest.map (·.1) := List.mem_map_of_mem later
      have other : head.1 ≠ name := by
        intro same
        rw [← same] at listed
        exact new listed
      rw [find?, if_neg other]
      exact ih others later

/-- The value that a name is given last is the one it has. -/
theorem get?_insertAll_last (s : Slots) {name : String} (v : Value)
    (front : List (String × Value)) {back : List (String × Value)} (last : name ∉ back.map (·.1)) :
    (s.insertAll (front ++ (name, v) :: back)).get? name = some v := by
  induction front generalizing s with
  | nil => rw [List.nil_append, insertAll_cons, get?_insertAll_other _ last, get?_insert_same]
  | cons entry front ih => exact ih _

/-- A name that is set at all is set for a last time. -/
theorem exists_last {name : String} {entries : List (String × Value)}
    (mem : name ∈ entries.map (·.1)) : ∃ front v back,
      entries = front ++ (name, v) :: back ∧ name ∉ back.map (·.1) := by
  induction entries with
  | nil => cases mem
  | cons entry entries ih =>
    by_cases later : name ∈ entries.map (·.1)
    · obtain ⟨front, v, back, rfl, last⟩ := ih later
      exact ⟨entry :: front, v, back, rfl, last⟩
    · rcases List.mem_cons.mp mem with rfl | again
      · exact ⟨[], entry.2, entries, rfl, later⟩
      · exact absurd again later

/-- What is listed is what each name was given last. -/
theorem mem_empty_insertAll_iff {entries : List (String × Value)} {name : String} {v : Value} :
    (name, v) ∈ (empty.insertAll entries).entries ↔
      ∃ front back, entries = front ++ (name, v) :: back ∧ name ∉ back.map (·.1) := by
  constructor
  · intro mem
    have found := get?_of_mem (nodup_names_insertAll nodup_names_empty entries) mem
    have set : name ∈ entries.map (·.1) := by
      have listed : name ∈ (empty.insertAll entries).names := List.mem_map_of_mem mem
      rwa [names_empty_insertAll, List.mem_eraseDups] at listed
    obtain ⟨front, w, back, rfl, last⟩ := exists_last set
    rw [get?_insertAll_last _ w front last] at found
    obtain rfl := Option.some.inj found
    exact ⟨front, back, rfl, last⟩
  · rintro ⟨front, back, rfl, last⟩
    exact mem_of_get? (get?_insertAll_last _ v front last)

example : (empty.insertAll [("b", .integer 1), ("a", .integer 2), ("b", .integer 3)]).entries =
    [("b", .integer 3), ("a", .integer 2)] := by decide

end Slots

/-- The properties of an object are an ordered map in which the last write wins. Whatever happens
from the creation of an object on, it lists each name that was set on it once, in the order in which
the names were first set, with the value that each was given last; and it would be the same object
if nothing else had happened. -/
theorem properties_in_order (h : Heap ν) (kind : Kind ν) (parent : Option Ref)
    (cs : List (Change ν)) :
    let r := (h.alloc { kind, parent }).1
    let created := (h.alloc { kind, parent }).2
    ∃ slots, (created.changes cs).get? r = some { kind, slots, parent } ∧
      slots.names.Nodup ∧ slots.names = ((writes r cs).map (·.1)).eraseDups ∧
      (∀ name v, (name, v) ∈ slots.entries ↔
        ∃ front back, writes r cs = front ++ (name, v) :: back ∧ name ∉ back.map (·.1)) ∧
      (created.changes (cs.filter fun c => (c.write? r).isSome)).get? r =
        some { kind, slots, parent } := by
  intro r created
  have here : r.index < created.objects.size := by simp [r, created, Heap.alloc]
  have first : created.get? r = some { kind, parent } := h.get?_alloc { kind, parent }
  refine ⟨Slots.empty.insertAll (writes r cs), ?_, ?_, ?_, ?_, ?_⟩
  · rw [Heap.get?_changes here, first]
    rfl
  · exact Slots.nodup_names_insertAll Slots.nodup_names_empty _
  · exact Slots.names_empty_insertAll _
  · intro name v
    exact Slots.mem_empty_insertAll_iff
  · rw [Heap.get?_changes here, first, writes_filter]
    rfl

end Lisplet
