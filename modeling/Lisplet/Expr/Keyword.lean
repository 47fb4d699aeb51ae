import Lisplet.Expr.Basic
import Lisplet.Token.Basic
/-!
The words that, at the head of a parenthesised list, make it a special form. Anywhere else they are
names like any other.
-/
namespace Lisplet

inductive Keyword where
  | block
  | assign (mode : AssignMode)
  | function
  | leave
  | conditional
  | object
  | field
  | setField
  | method
  deriving DecidableEq, Repr

namespace Keyword

def word : Keyword → String
  | .block => "block"
  | .assign .declare => "var"
  | .assign .update => "set"
  | .function => "fun"
  | .leave => "return"
  | .conditional => "if"
  | .object => "new"
  | .field => "field"
  | .setField => "set-field"
  | .method => "method"

def ofWord? : String → Option Keyword
  | "block" => some .block
  | "var" => some (.assign .declare)
  | "set" => some (.assign .update)
  | "fun" => some .function
  | "return" => some .leave
  | "if" => some .conditional
  | "new" => some .object
  | "field" => some .field
  | "set-field" => some .setField
  | "method" => some .method
  | _ => none

@[simp] theorem ofWord?_word (k : Keyword) : ofWord? k.word = some k := by
  rcases k with _ | (_ | _) | _ | _ | _ | _ | _ | _ | _ <;> rfl

theorem word_of_ofWord? {s : String} {k : Keyword} (h : ofWord? s = some k) : k.word = s := by
  unfold ofWord? at h
  split at h <;> cases h <;> rfl

/-- The keyword as a token. -/
def token (k : Keyword) : TokenKind := .symbol k.word

end Keyword

/-- The atom that is always the undefined literal and never a name. -/
def Literal.undefinedWord : String := "undefined"

end Lisplet
