import Lisplet.Expr.Basic
/-!
Values, and the properties that have them. Integers are 64-bit words, and objects are named by
reference: two values are equal when they are the same integer, the same text or the same object.

The properties of an object are named values in the order in which the names were first set. Setting a
name again changes its value and leaves it in its place.
-/
namespace Lisplet

/-- An object, by its place in the order of creation. -/
structure Ref where
  index : Nat
  deriving DecidableEq, Repr

/-- A value. `undefined` is what a name or a property that is found nowhere has. -/
inductive Value where
  | undefined
  | integer (value : Int64)
  | string (value : String)
  | object (ref : Ref)
  deriving DecidableEq, Repr

namespace Value

instance : Inhabited Value := ⟨.undefined⟩

def ofLiteral : Literal → Value
  | .undefined => .undefined
  | .integer v => .integer v
  | .string s => .string s

/-- Truth as a value: 1 or 0. -/
def ofBool (b : Bool) : Value := .integer (if b then 1 else 0)

/-- Everything counts as true but the integer 0. -/
def isTruthy (v : Value) : Bool := v ≠ .integer 0

def isUndefined (v : Value) : Bool := v = .undefined

end Value

/-- The properties of an object. -/
structure Slots where
  entries : List (String × Value)
  deriving DecidableEq, Repr

namespace Slots

def empty : Slots := ⟨[]⟩

/-- The value under the name in a list of entries. -/
def find? (name : String) : List (String × Value) → Option Value
  | [] => none
  | (n, v) :: rest => if n = name then some v else find? name rest

/-- Set the name in a list of entries, in its place or at the end. -/
def put (name : String) (value : Value) : List (String × Value) → List (String × Value)
  | [] => [(name, value)]
  | (n, v) :: rest => if n = name then (n, value) :: rest else (n, v) :: put name value rest

def get? (s : Slots) (name : String) : Option Value := find? name s.entries

def insert (s : Slots) (name : String) (value : Value) : Slots := ⟨put name value s.entries⟩

/-- The names, in order. -/
def names (s : Slots) : List String := s.entries.map (·.1)

theorem find?_put (name other : String) (value : Value) (entries : List (String × Value)) :
    find? other (put name value entries) =
      if name = other then some value else find? other entries := by
  induction entries with
  | nil => simp [put, find?]
  | cons entry rest ih => grind [put, find?]

@[simp] theorem get?_empty (name : String) : empty.get? name = none := rfl

theorem get?_insert (s : Slots) (name other : String) (value : Value) :
    (s.insert name value).get? other = if name = other then some value else s.get? other :=
  find?_put name other value s.entries

@[simp] theorem get?_insert_same (s : Slots) (name : String) (value : Value) :
    (s.insert name value).get? name = some value := by simp [get?_insert]

theorem get?_insert_other (s : Slots) {name other : String} (value : Value) (h : name ≠ other) :
    (s.insert name value).get? other = s.get? other := by simp [get?_insert, h]

end Slots
end Lisplet
