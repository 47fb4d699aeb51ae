import Lisplet.Expr.Keyword
/-!
The grammar of programs, as a relation between tokens and what they spell. Tokens carry their lines,
and so do expressions: an expression is on the line of its first token, and so is what a form adds on
its own, which is the value of an empty `return`, the missing branch of an `if` and the block that
the body of a function is.

Nothing here reads from left to right, and nothing says how a reader could find the right rule. Three
sorts of things are spelled, expressions, lists of them and lists of properties; one relation speaks
of all three, so that one induction goes over them together.
-/
namespace Lisplet

/-- What tokens can spell. -/
inductive Phrase where
  | expr (e : Expr)
  | exprs (es : List Expr)
  | properties (ps : List (String × Expr))

/-- The tokens in parentheses, which stand on the lines `l` and `r`. -/
def enclose (l : Nat) (ts : List Token) (r : Nat) : List Token :=
  ⟨.leftParen, l⟩ :: ts ++ [⟨.rightParen, r⟩]

/-- The tokens are these names, one after the other, on any lines. -/
def NamesOn (names : List String) (ts : List Token) : Prop :=
  ts.map (·.kind) = names.map .symbol

theorem NamesOn.ne_eof {names : List String} {ts : List Token} (h : NamesOn names ts) :
    ∀ t ∈ ts, t.kind ≠ .eof := by
  intro t ht ended
  have mem : t.kind ∈ names.map TokenKind.symbol := h ▸ List.mem_map_of_mem ht
  simp [ended] at mem

/-- The tokens start neither with a closing parenthesis nor with a keyword. -/
def StartsCall (ts : List Token) : Prop :=
  ∀ t ∈ ts.head?, t.kind ≠ .rightParen ∧ ∀ k : Keyword, t.kind ≠ k.token

/-- The tokens spell the phrase. -/
inductive Spells : Phrase → List Token → Prop where
  | integer (l : Nat) (v : Int64) : Spells (.expr (.literal l (.integer v))) [⟨.integer v, l⟩]
  | string (l : Nat) (s : String) : Spells (.expr (.literal l (.string s))) [⟨.string s, l⟩]
  | undefined (l : Nat) : Spells (.expr (.literal l .undefined)) [⟨.symbol "undefined", l⟩]
  | access (l : Nat) (x : String) (hx : x ≠ "undefined") :
      Spells (.expr (.access l x)) [⟨.symbol x, l⟩]
  | block (l k r : Nat) {ts es} (body : Spells (.exprs es) ts) :
      Spells (.expr (.block l es)) (enclose l (⟨Keyword.block.token, k⟩ :: ts) r)
  | assign (l k n r : Nat) (mode : AssignMode) (x : String) {ts e} (value : Spells (.expr e) ts) :
      Spells (.expr (.assign l mode x e))
        (enclose l (⟨(Keyword.assign mode).token, k⟩ :: ⟨.symbol x, n⟩ :: ts) r)
  | function (l k m n r : Nat) {name : Option String} {parameters fs ps ts es}
      (named : NamesOn name.toList fs) (params : NamesOn parameters ps)
      (body : Spells (.exprs es) ts) :
      Spells (.expr (.function l name parameters (.block l es)))
        (enclose l (⟨Keyword.function.token, k⟩ :: (fs ++ (enclose m ps n ++ ts))) r)
  | call (l r : Nat) {fs ts f es} (callee : Spells (.expr f) fs) (starts : StartsCall fs)
      (arguments : Spells (.exprs es) ts) :
      Spells (.expr (.call l f es)) (enclose l (fs ++ ts) r)
  | leaveEmpty (l k r : Nat) :
      Spells (.expr (.leave l (.literal l .undefined))) (enclose l [⟨Keyword.leave.token, k⟩] r)
  | leave (l k r : Nat) {ts e} (value : Spells (.expr e) ts) :
      Spells (.expr (.leave l e)) (enclose l (⟨Keyword.leave.token, k⟩ :: ts) r)
  | conditionalShort (l k r : Nat) {cs ts c t} (condition : Spells (.expr c) cs)
      (yes : Spells (.expr t) ts) :
      Spells (.expr (.conditional l c t (.block l [])))
        (enclose l (⟨Keyword.conditional.token, k⟩ :: (cs ++ ts)) r)
  | conditional (l k r : Nat) {cs ts us c t e} (condition : Spells (.expr c) cs)
      (yes : Spells (.expr t) ts) (no : Spells (.expr e) us) :
      Spells (.expr (.conditional l c t e))
        (enclose l (⟨Keyword.conditional.token, k⟩ :: (cs ++ (ts ++ us))) r)
  | object (l k r : Nat) {ts ps} (properties : Spells (.properties ps) ts)
      (distinct : (ps.map (·.1)).Nodup) :
      Spells (.expr (.object l ps)) (enclose l (⟨Keyword.object.token, k⟩ :: ts) r)
  | field (l k n r : Nat) (x : String) {ts e} (receiver : Spells (.expr e) ts) :
      Spells (.expr (.field l e x))
        (enclose l (⟨Keyword.field.token, k⟩ :: (ts ++ [⟨.symbol x, n⟩])) r)
  | setField (l k n r : Nat) (x : String) {ts us e v} (receiver : Spells (.expr e) ts)
      (value : Spells (.expr v) us) :
      Spells (.expr (.setField l e x v))
        (enclose l (⟨Keyword.setField.token, k⟩ :: (ts ++ ⟨.symbol x, n⟩ :: us)) r)
  | method (l k n r : Nat) (x : String) {ts us e es} (receiver : Spells (.expr e) ts)
      (arguments : Spells (.exprs es) us) :
      Spells (.expr (.method l e x es))
        (enclose l (⟨Keyword.method.token, k⟩ :: (ts ++ ⟨.symbol x, n⟩ :: us)) r)
  | exprsNil : Spells (.exprs []) []
  | exprsCons {ts us e es} (head : Spells (.expr e) ts) (tail : Spells (.exprs es) us) :
      Spells (.exprs (e :: es)) (ts ++ us)
  | propertiesNil : Spells (.properties []) []
  | propertiesCons (l n r : Nat) (x : String) {ts us e ps} (value : Spells (.expr e) ts)
      (tail : Spells (.properties ps) us) :
      Spells (.properties ((x, e) :: ps)) (enclose l (⟨.symbol x, n⟩ :: ts) r ++ us)

namespace Spells

theorem exprs_append {es fs : List Expr} {ts us : List Token} (h : Spells (.exprs es) ts)
    (h' : Spells (.exprs fs) us) : Spells (.exprs (es ++ fs)) (ts ++ us) := by
  induction es generalizing ts with
  | nil =>
    cases h
    exact h'
  | cons e es ih =>
    cases h with
    | exprsCons head tail =>
      rw [List.append_assoc]
      exact .exprsCons head (ih tail)

theorem properties_append {ps qs : List (String × Expr)} {ts us : List Token}
    (h : Spells (.properties ps) ts) (h' : Spells (.properties qs) us) :
    Spells (.properties (ps ++ qs)) (ts ++ us) := by
  induction ps generalizing ts with
  | nil =>
    cases h
    exact h'
  | cons p ps ih =>
    cases h with
    | propertiesCons l n r x value tail =>
      rw [List.append_assoc]
      exact .propertiesCons l n r x value (ih tail)

/-- Add one expression behind others. -/
theorem exprs_snoc {es : List Expr} {e : Expr} {ts us : List Token} (h : Spells (.exprs es) ts)
    (last : Spells (.expr e) us) : Spells (.exprs (es ++ [e])) (ts ++ us) := by
  simpa using h.exprs_append (.exprsCons last .exprsNil)

/-- The end of the text spells nothing. -/
theorem ne_eof {phrase : Phrase} {ts : List Token} (h : Spells phrase ts) :
    ∀ t ∈ ts, t.kind ≠ .eof := by
  induction h with
  | function l k m n r named params _ ih =>
    have names := named.ne_eof
    have parameters := params.ne_eof
    grind [enclose, Keyword.token]
  | integer | string | undefined | access | block | assign | call | leaveEmpty | leave
  | conditionalShort | conditional | object | field | setField | method | exprsNil | exprsCons
  | propertiesNil | propertiesCons => grind [enclose, Keyword.token]

end Spells
end Lisplet
