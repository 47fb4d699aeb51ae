import Lisplet.Object.Heap
import Lisplet.Token.Basic
/-!
Values as text. A record is shown with its properties, one level deep: an object inside it is only
named, so that cycles do no harm. Each text exists as long as no reference in it is dangling.
-/
namespace Lisplet

variable {ν : Type}

/-- The object without its properties. -/
def Kind.short : Kind ν → String
  | .environment => "<environment>"
  | .plain => "\x7b...\x7d"
  | .function name _ => "<function " ++ name ++ ">"

namespace Heap

/-- The object without its properties. -/
def short? (h : Heap ν) (r : Ref) : Option String := (h.get? r).map (·.kind.short)

/-- A value as it stands in the record that holds it: texts are in quotes and objects short. -/
def propertyText? (h : Heap ν) : Value → Option String
  | .undefined => some "undefined"
  | .integer v => some (Numeral.ofWord v)
  | .string s => some ("\"" ++ s ++ "\"")
  | .object r => h.short? r

def objectText? (h : Heap ν) (r : Ref) : Option String := do
  let o ← h.get? r
  match o.kind with
  | .plain =>
    let parts ← o.slots.entries.mapM fun (name, v) => do
      return name ++ ": " ++ (← h.propertyText? v)
    return "\x7b" ++ ", ".intercalate parts ++ "\x7d"
  | kind => return kind.short

/-- The value as `print` shows it. -/
def text? (h : Heap ν) : Value → Option String
  | .undefined => some "undefined"
  | .integer v => some (Numeral.ofWord v)
  | .string s => some s
  | .object r => h.objectText? r

/-- The value as messages show it. -/
def text (h : Heap ν) (v : Value) : String := (h.text? v).getD "<dangling>"

/-- The value with its type, as reports show it. -/
def typedText (h : Heap ν) : Value → String
  | .undefined => "Undefined"
  | .integer v => "Integer(" ++ Numeral.ofWord v ++ ")"
  | .string s => "String(\"" ++ s ++ "\")"
  | .object r =>
    match (h.get? r).bind (·.kind.name?) with
    | some name => "Function(" ++ name ++ ")"
    | none => "Object(" ++ h.text (.object r) ++ ")"

/-- A dump of the object. -/
def dumpObject (h : Heap ν) (r : Ref) : Dump :=
  .tuple "JsObject" [.text ((h.short? r).getD "<dangling>")]

/-- A dump of the value. -/
def dump (h : Heap ν) : Value → Dump
  | .undefined => .text "Undefined"
  | .integer v => .tuple "Integer" [.word v]
  | .string s => .tuple "String" [.quoted s]
  | .object r => .tuple "Object" [h.dumpObject r]

end Heap
end Lisplet
