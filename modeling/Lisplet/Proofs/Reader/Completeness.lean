import Lisplet.Proofs.Reader.Cursor
import Lisplet.Proofs.Reader.Grammar
/-!
The reader reads whatever the grammar spells. Each phrase says what reading its tokens does to the
innermost open form, whatever that is, whatever waits outside of it and whatever comes after the
tokens (`Phrase.Read`); the induction is over the rules of the grammar.
-/
namespace Lisplet
namespace Reader

/-- Readings that begin with the tokens. -/
def ahead (ts : List Token) (rest : List Reading) (last : Nat) : Cursor :=
  ⟨ts.map .ok ++ rest, last⟩

@[simp] theorem ahead_nil (rest : List Reading) (last : Nat) : ahead [] rest last = ⟨rest, last⟩ := rfl

theorem ahead_append (ts us : List Token) (rest : List Reading) (last : Nat) :
    ahead (ts ++ us) rest last = ahead ts (us.map .ok ++ rest) last := by
  simp [ahead]

section
variable {frame : Frame} {t : Token} (more : t.kind ≠ .eof) (outer : List Hole) (ts : List Token)
  (rest : List Reading) (last : Nat)
include more

theorem readForm_shift {frame' : Frame} (see : frame.see t = .shift frame') :
    readForm frame outer (ahead (t :: ts) rest last) = readForm frame' outer (ahead ts rest last) := by
  rw [readForm_token rfl more, see]
  rfl

theorem readForm_descend {hole : Hole} (see : frame.see t = .descend hole) :
    readForm frame outer (ahead (t :: ts) rest last) =
      readForm (.operand (.callee t.line)) (hole :: outer) (ahead ts rest last) := by
  rw [readForm_token rfl more, see]
  rfl

theorem readForm_finish {whole : Expr} (see : frame.see t = .finish whole) :
    readForm frame outer (ahead (t :: ts) rest last) = conclude whole (ahead ts rest last) outer := by
  rw [readForm_token rfl more, see]
  rfl
end

end Reader

open Reader

/-- What it is to have read the tokens of a phrase. A keyword is no callee, so an expression that is
to fill the place of one must not start with a keyword. -/
def Phrase.Read : Phrase → List Token → Prop
  | .expr e, ts =>
    (∀ hole outer rest last, (∀ l, hole = .callee l → StartsCall ts) →
      readForm (.operand hole) outer (ahead ts rest last) =
        readForm (hole.fill e) outer ⟨rest, last⟩) ∧
    ∀ rest last, readExpr (ahead ts rest last) = (.ok e, ⟨rest, last⟩)
  | .exprs es, ts => ∀ line collection held outer rest last,
    readForm (.operand (.operands line collection held)) outer (ahead ts rest last) =
      readForm (.operand (.operands line collection (es.reverse ++ held))) outer ⟨rest, last⟩
  | .properties ps, ts => ∀ line held outer rest last, ((held.reverse ++ ps).map (·.1)).Nodup →
    readForm (.properties line held) outer (ahead ts rest last) =
      readForm (.properties line (ps.reverse ++ held)) outer ⟨rest, last⟩

namespace Reader

/-- A token that may start a call is no keyword in any place. -/
theorem special?_eq_none {hole : Hole} {t : Token} (h : ∀ l, hole = .callee l → StartsCall [t]) :
    Frame.special? hole t.kind = none := by
  cases hole with
  | callee l =>
    have plain := (h l rfl t (by simp)).2
    rcases t with ⟨kind, line⟩
    cases kind with
    | symbol s =>
      cases hw : Keyword.ofWord? s with
      | none => simp [Frame.special?, hw]
      | some k => exact absurd (by rw [Keyword.token, Keyword.word_of_ofWord? hw]) (plain k)
    | leftParen | rightParen | integer | string | eof => rfl
  | operands | assigned | returned | condition | thenBranch | elseBranch | property | receiver
  | member => rfl

theorem read_atom {t : Token} {e : Expr} (h : t.atom? = some e) : Phrase.Read (.expr e) [t] := by
  have more : t.kind ≠ .eof := by
    intro hk
    simp [Token.atom?, hk] at h
  constructor
  · intro hole outer rest last start
    have see : (Frame.operand hole).see t = .shift (hole.fill e) := by
      simp only [Frame.see, Frame.seeOperand, special?_eq_none start, h]
    exact readForm_shift more outer [] rest last see
  · intro rest last
    have look : TokenSource.peek (ahead [t] rest last) = (.ok t, ahead [t] rest last) := rfl
    simp only [readExpr, look, h]
    rfl

/-- A form is read if its inside is read on from behind the opening parenthesis. -/
theorem read_form {l r : Nat} {e : Expr} {ts : List Token}
    (h : ∀ outer rest last, readForm (.operand (.callee l)) outer
      (ahead (ts ++ [⟨.rightParen, r⟩]) rest last) = conclude e ⟨rest, last⟩ outer) :
    Phrase.Read (.expr e) (enclose l ts r) := by
  constructor
  · intro hole outer rest last start
    have see : (Frame.operand hole).see ⟨.leftParen, l⟩ = .descend hole := by
      have hs : Frame.special? hole .leftParen = none := by cases hole <;> rfl
      simp [Frame.see, Frame.seeOperand, hs, Token.atom?]
    rw [enclose, List.cons_append, readForm_descend (by simp) outer _ rest last see, h]
    rfl
  · intro rest last
    have look : TokenSource.peek (ahead (enclose l ts r) rest last) =
        (.ok ⟨.leftParen, l⟩, ahead (enclose l ts r) rest last) := rfl
    simp only [readExpr, look, Token.atom?]
    exact h [] rest last

/-- A special form is read if it is read on from behind its keyword. -/
theorem read_special {l k r : Nat} {w : Keyword} {e : Expr} {ts : List Token}
    (h : ∀ outer rest last, readForm (.ofKeyword l w) outer
      (ahead (ts ++ [⟨.rightParen, r⟩]) rest last) = conclude e ⟨rest, last⟩ outer) :
    Phrase.Read (.expr e) (enclose l (⟨w.token, k⟩ :: ts) r) := by
  refine read_form fun outer rest last => ?_
  have see : (Frame.operand (.callee l)).see ⟨w.token, k⟩ = .shift (.ofKeyword l w) := by
    simp [Frame.see, Frame.seeOperand, Frame.special?, Keyword.token]
  exact (readForm_shift (by simp [Keyword.token]) outer _ rest last see).trans (h outer rest last)

/-- The end of a form that takes no further operand. -/
theorem read_complete (w : Keyword) (whole : Expr) (r : Nat) (outer : List Hole)
    (rest : List Reading) (last : Nat) :
    readForm (.complete w whole) outer (ahead [⟨.rightParen, r⟩] rest last) =
      conclude whole ⟨rest, last⟩ outer :=
  readForm_finish (by simp) outer [] rest last (by simp [Frame.see])

/-- The end of a form where one more operand could have come. -/
theorem read_close {hole : Hole} {whole : Expr} (h : hole.close = some (.finish whole)) (r : Nat)
    (outer : List Hole) (rest : List Reading) (last : Nat) :
    readForm (.operand hole) outer (ahead [⟨.rightParen, r⟩] rest last) =
      conclude whole ⟨rest, last⟩ outer := by
  refine readForm_finish (by simp) outer [] rest last ?_
  have hs : Frame.special? hole .rightParen = none := by cases hole <;> rfl
  simp [Frame.see, Frame.seeOperand, hs, Token.atom?, h]

theorem read_operand {e : Expr} {ts : List Token} (h : (Phrase.expr e).Read ts) {hole : Hole}
    (start : ∀ l, hole = .callee l → StartsCall ts) (outer : List Hole) (us : List Token)
    (rest : List Reading) (last : Nat) :
    readForm (.operand hole) outer (ahead (ts ++ us) rest last) =
      readForm (hole.fill e) outer (ahead us rest last) := by
  rw [ahead_append]
  exact h.1 hole outer _ last start

theorem read_operands {es : List Expr} {ts : List Token} (h : (Phrase.exprs es).Read ts)
    (line : Nat) (collection : Collection) (r : Nat) (outer : List Hole) (rest : List Reading)
    (last : Nat) :
    readForm (.operand (.operands line collection [])) outer
      (ahead (ts ++ [⟨.rightParen, r⟩]) rest last) =
      conclude (collection.build line es) ⟨rest, last⟩ outer := by
  rw [ahead_append, h]
  exact read_close (by simp [Hole.close]) r outer rest last

/-- The list of parameters, up to and with its closing parenthesis. -/
theorem read_parameters {names : List String} {ps : List Token} (h : NamesOn names ps) (line : Nat)
    (name : Option String) (held : List String) (n : Nat) (outer : List Hole) (us : List Token)
    (rest : List Reading) (last : Nat) :
    readForm (.parameters line name held) outer (ahead (ps ++ ⟨.rightParen, n⟩ :: us) rest last) =
      readForm (.operand (.operands line (.body name (held.reverse ++ names)) [])) outer
        (ahead us rest last) := by
  induction names generalizing ps held with
  | nil =>
    obtain rfl : ps = [] := by simpa [NamesOn] using h
    exact readForm_shift (by simp) outer us rest last (by simp [Frame.see])
  | cons x names ih =>
    obtain ⟨⟨_, m⟩, ps, rfl, rfl, tail⟩ := List.map_eq_cons_iff.mp h
    have see : (Frame.parameters line name held).see ⟨.symbol x, m⟩ =
        .shift (.parameters line name (x :: held)) := by simp [Frame.see, Frame.takeName]
    refine (readForm_shift (by simp) outer _ rest last see).trans ?_
    simpa using ih tail (x :: held)

/-- The head of a function, from behind its keyword up to its body. -/
theorem read_functionHead {name : Option String} {parameters : List String} {fs ps : List Token}
    (named : NamesOn name.toList fs) (params : NamesOn parameters ps) (l m n : Nat)
    (outer : List Hole) (us : List Token) (rest : List Reading) (last : Nat) :
    readForm (.functionHead l) outer (ahead (fs ++ (enclose m ps n ++ us)) rest last) =
      readForm (.operand (.operands l (.body name parameters) [])) outer (ahead us rest last) := by
  have hparams := fun name => read_parameters params l name [] n outer us rest last
  cases name with
  | none =>
    obtain rfl : fs = [] := by simpa [NamesOn] using named
    have see : (Frame.functionHead l).see ⟨.leftParen, m⟩ = .shift (.parameters l none []) := rfl
    refine (readForm_shift (by simp) outer _ rest last see).trans ?_
    simpa using hparams none
  | some x =>
    obtain ⟨⟨_, a⟩, fs', rfl, rfl, tail⟩ := List.map_eq_cons_iff.mp named
    obtain rfl : fs' = [] := by simpa using tail
    have see₁ : (Frame.functionHead l).see ⟨.symbol x, a⟩ = .shift (.parametersStart l x) := rfl
    have see₂ : (Frame.parametersStart l x).see ⟨.leftParen, m⟩ =
        .shift (.parameters l (some x) []) := by simp [Frame.see]
    refine (readForm_shift (by simp) outer _ rest last see₁).trans ?_
    refine (readForm_shift (by simp) outer _ rest last see₂).trans ?_
    simpa using hparams (some x)

end Reader

theorem Spells.read {phrase : Phrase} {ts : List Token} (h : Spells phrase ts) : phrase.Read ts := by
  induction h with
  | integer l v => exact read_atom rfl
  | string l s => exact read_atom rfl
  | undefined l => exact read_atom rfl
  | access l x hx => exact read_atom (by simp [Token.atom?, Literal.undefinedWord, hx])
  | block l k r _ ih =>
    refine read_special fun outer rest last => ?_
    exact read_operands ih l .block r outer rest last
  | assign l k n r mode x _ ih =>
    refine read_special fun outer rest last => ?_
    have see : (Frame.assignedName l mode).see ⟨.symbol x, n⟩ =
        .shift (.operand (.assigned l mode x)) := by simp [Frame.see, Frame.takeName]
    refine (readForm_shift (by simp) outer _ rest last see).trans ?_
    refine (read_operand ih (by simp) ..).trans ?_
    exact read_complete ..
  | function l k m n r named params _ ih =>
    refine read_special fun outer rest last => ?_
    rw [List.append_assoc, List.append_assoc]
    refine (read_functionHead named params ..).trans ?_
    exact read_operands ih l _ r outer rest last
  | call l r _ starts _ ihf ih =>
    refine read_form fun outer rest last => ?_
    rw [List.append_assoc]
    refine (read_operand ihf (fun _ _ => starts) ..).trans ?_
    exact read_operands ih l _ r outer rest last
  | leaveEmpty l k r =>
    refine read_special fun outer rest last => ?_
    exact read_close rfl r outer rest last
  | leave l k r _ ih =>
    refine read_special fun outer rest last => ?_
    refine (read_operand ih (by simp) ..).trans ?_
    exact read_complete ..
  | conditionalShort l k r _ _ ihc iht =>
    refine read_special fun outer rest last => ?_
    rw [List.append_assoc]
    refine (read_operand ihc (by simp) ..).trans ?_
    refine (read_operand iht (by simp) ..).trans ?_
    exact read_close rfl r outer rest last
  | conditional l k r _ _ _ ihc iht ihe =>
    refine read_special fun outer rest last => ?_
    rw [List.append_assoc, List.append_assoc]
    refine (read_operand ihc (by simp) ..).trans ?_
    refine (read_operand iht (by simp) ..).trans ?_
    refine (read_operand ihe (by simp) ..).trans ?_
    exact read_complete ..
  | object l k r _ distinct ih =>
    refine read_special fun outer rest last => ?_
    rw [ahead_append]
    refine (ih l [] outer _ last (by simpa using distinct)).trans ?_
    exact readForm_finish (by simp) outer [] rest last (by simp [Frame.see])
  | field l k n r x _ ih =>
    refine read_special fun outer rest last => ?_
    rw [List.append_assoc]
    refine (read_operand ih (by simp) ..).trans ?_
    refine (readForm_shift (by simp) outer _ rest last (by rfl)).trans ?_
    exact read_complete ..
  | setField l k n r x _ _ ih ihv =>
    refine read_special fun outer rest last => ?_
    rw [List.append_assoc]
    refine (read_operand ih (by simp) ..).trans ?_
    refine (readForm_shift (by simp) outer _ rest last (by rfl)).trans ?_
    refine (read_operand ihv (by simp) ..).trans ?_
    exact read_complete ..
  | method l k n r x _ _ ih ihs =>
    refine read_special fun outer rest last => ?_
    rw [List.append_assoc]
    refine (read_operand ih (by simp) ..).trans ?_
    refine (readForm_shift (by simp) outer _ rest last (by rfl)).trans ?_
    exact read_operands ihs l _ r outer rest last
  | exprsNil => exact fun _ _ _ _ _ _ => rfl
  | exprsCons _ _ ih ihs =>
    intro line collection held outer rest last
    refine (read_operand ih (by simp) ..).trans ?_
    refine (ihs line collection _ outer rest last).trans ?_
    simp
  | propertiesNil => exact fun _ _ _ _ _ _ => rfl
  | propertiesCons l n r x _ _ ih ihs =>
    intro line held outer rest last distinct
    have new : held.any (·.1 == x) = false := by
      simp only [List.map_append, List.map_cons, List.nodup_append] at distinct
      have apart := fun p hp => distinct.2.2 p hp x (by simp)
      simpa using fun a b hab => apart a (by simpa using ⟨b, hab⟩)
    rw [enclose, List.append_assoc]
    refine (readForm_shift (by simp) outer _ rest last (by rfl)).trans ?_
    have see : (Frame.propertyName line held l).see ⟨.symbol x, n⟩ =
        .shift (.operand (.property line held x)) := by simp [Frame.see, Frame.takeName, new]
    refine (readForm_shift (by simp) outer _ rest last see).trans ?_
    refine (read_operand ih (by simp) ..).trans ?_
    refine (readForm_shift (by simp) outer _ rest last (by rfl)).trans ?_
    refine (ihs line _ outer rest last (by simpa using distinct)).trans ?_
    simp

/-- An expression has a first token, and that is not the end of the text. -/
theorem Spells.exists_cons {e : Expr} {ts : List Token} (h : Spells (.expr e) ts) :
    ∃ t us, ts = t :: us ∧ t.kind ≠ .eof := by
  cases h <;> exact ⟨_, _, rfl, by simp⟩

/-- Forms that the grammar spells are read one after the other, whatever comes behind them. -/
theorem Spells.readForms_ahead {es : List Expr} {ts : List Token} (h : Spells (.exprs es) ts)
    (held : List Expr) (rest : List Reading) (last : Nat) :
    Reader.readForms held (ahead ts rest last) =
      Reader.readForms (es.reverse ++ held) (Cursor.mk rest last) := by
  induction es generalizing ts held with
  | nil =>
    cases h
    rfl
  | cons e es ih =>
    cases h with
    | @exprsCons ts us _ _ head tail =>
      obtain ⟨t, ts', rfl, more⟩ := head.exists_cons
      have hread := head.read.2 (us.map .ok ++ rest) last
      rw [ahead_append, readForms_token rfl more, hread, List.reverse_cons, List.append_assoc]
      exact ih tail (e :: held)

theorem Spells.readForms {es : List Expr} {ts : List Token} (h : Spells (.exprs es) ts)
    (held : List Expr) (last : Nat) :
    (Reader.readForms held (ahead ts [] last)).1 = .ok ⟨held.reverse ++ es⟩ := by
  rw [h.readForms_ahead, readForms_end rfl rfl, List.reverse_append, List.reverse_reverse]

end Lisplet
