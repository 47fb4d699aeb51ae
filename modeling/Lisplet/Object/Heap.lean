import Lisplet.Object.Value
/-!
Objects and the heap that holds them. One sort of object serves as a scope, as a record and as a
function. All have properties, and all may delegate: a name that an object does not own is looked up
in its parent. Objects are never removed, so a reference stays good.

Functions are closures or natives. The type `ν` of natives is a parameter: the heap stores them and
nothing here looks inside.
-/
namespace Lisplet

/-- A function defined by a program: where it was defined, what it takes, what it does, and the
scope its free names belong to. -/
structure Closure where
  line : Nat
  parameters : List String
  body : Expr
  scope : Ref

inductive Code (ν : Type) where
  | native (native : ν)
  | closure (closure : Closure)

inductive Kind (ν : Type) where
  | environment
  | plain
  | function (name : String) (code : Code ν)

structure Object (ν : Type) where
  kind : Kind ν
  slots : Slots := .empty
  parent : Option Ref := none

/-- The objects in order of creation; a reference is a place in this order. -/
structure Heap (ν : Type) where
  objects : Array (Object ν)

variable {ν : Type}

namespace Kind

def isFunction : Kind ν → Bool
  | .function _ _ => true
  | _ => false

/-- The name of a function; other objects have none. -/
def name? : Kind ν → Option String
  | .function name _ => some name
  | _ => none

end Kind

namespace Heap

def empty : Heap ν := ⟨#[]⟩

def get? (h : Heap ν) (r : Ref) : Option (Object ν) := h.objects[r.index]?

/-- Create an object. -/
def alloc (h : Heap ν) (o : Object ν) : Ref × Heap ν := (⟨h.objects.size⟩, ⟨h.objects.push o⟩)

/-- Set a property of the object itself, never of its parent. -/
def register (h : Heap ν) (r : Ref) (name : String) (value : Value) : Heap ν :=
  ⟨h.objects.modify r.index fun o => { o with slots := o.slots.insert name value }⟩

/-- Look the name up in the object and then along its parents, `fuel` objects at most. -/
def lookupWithin (h : Heap ν) (name : String) : Nat → Ref → Option Value
  | 0, _ => none
  | fuel + 1, r =>
    match h.get? r with
    | none => none
    | some o =>
      match o.slots.get? name with
      | some v => some v
      | none =>
        match o.parent with
        | none => some .undefined
        | some p => lookupWithin h name fuel p

/-- The value that the name has in the object or, failing that, in the nearest parent that owns it;
`undefined` if none does. Parents are older than their children, so the object's own place bounds
the length of the way. The result is `none` only where a reference on the way is dangling. -/
def lookup? (h : Heap ν) (r : Ref) (name : String) : Option Value :=
  h.lookupWithin name (r.index + 1) r

@[simp] theorem get?_alloc (h : Heap ν) (o : Object ν) :
    (h.alloc o).2.get? (h.alloc o).1 = some o := by simp [get?, alloc]

theorem get?_alloc_of_lt (h : Heap ν) (o : Object ν) {r : Ref} (hr : r.index < h.objects.size) :
    (h.alloc o).2.get? r = h.get? r := by
  simp only [get?, alloc]
  exact Array.getElem?_push_lt hr ▸ (Array.getElem?_eq_getElem hr).symm

theorem get?_register (h : Heap ν) (r p : Ref) (name : String) (value : Value) :
    (h.register r name value).get? p = (h.get? p).map fun o =>
      if r = p then { o with slots := o.slots.insert name value } else o := by
  rcases r with ⟨i⟩
  rcases p with ⟨j⟩
  simp only [get?, register, Array.getElem?_modify, Ref.mk.injEq]
  split <;> simp

end Heap
end Lisplet
