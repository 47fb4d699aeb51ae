import Lisplet.Proofs.Reader.Completeness
/-!
The reader between two tokens. It stands between the forms of the script, or in a form that is still
open (`Stand`), and a token leads from one such place to another, or is refused. What the reader does
next depends on where it stands and on nothing else that it has read (`Reader.resume_take`). So
reading a list of tokens ends in one of three ways: between two forms, in an open form, or at a token
that is refused, and then no further token is looked at (`Reader.readForms_refused`). Any reading that
fails, fails where the reader stands behind the tokens that it has taken, and for what comes next
(`Reader.exists_rejects`, `Script.exists_rejects`).
-/
namespace Lisplet

/-- Where the reader stands between two tokens. -/
inductive Stand where
  | between
  /-- In an open form, which the holes wait for. -/
  | inside (frame : Frame) (outer : List Hole)

namespace Stand

/-- Just behind a form. -/
def behind (whole : Expr) : List Hole → Stand
  | [] => between
  | hole :: outer => inside (hole.fill whole) outer

/-- Where the move on the token `t` leads. -/
def move (t : Token) (outer : List Hole) : Move → Option Stand
  | .shift frame => some (inside frame outer)
  | .descend hole => some (inside (.operand (.callee t.line)) (hole :: outer))
  | .finish whole => some (behind whole outer)
  | .refuse .. => none

/-- Where the token leads, unless it is refused. -/
def take (t : Token) : Stand → Option Stand
  | between =>
    if t.kind = .leftParen then some (inside (.operand (.callee t.line)) [])
    else t.atom?.map fun _ => between
  | inside frame outer => if t.kind = .eof then none else move t outer (frame.see t)

/-- Where the tokens lead, unless one of them is refused. -/
def takeAll : List Token → Stand → Option Stand
  | [], p => some p
  | t :: ts, p => (p.take t).bind (takeAll ts)

@[simp] theorem takeAll_nil (p : Stand) : p.takeAll [] = some p := rfl
@[simp] theorem takeAll_cons (t : Token) (ts : List Token) (p : Stand) :
    p.takeAll (t :: ts) = (p.take t).bind (takeAll ts) := rfl

theorem takeAll_append (ts us : List Token) (p : Stand) :
    p.takeAll (ts ++ us) = (p.takeAll ts).bind (takeAll us) := by
  induction ts generalizing p with
  | nil => rfl
  | cons t ts ih => cases h : p.take t <;> simp [h, ih]

theorem ne_eof_of_take {t : Token} {p q : Stand} (h : p.take t = some q) : t.kind ≠ .eof := by
  intro ended
  cases p <;> simp [take, ended, Token.atom?] at h

theorem ne_eof_of_takeAll {ts : List Token} {p q : Stand} (h : p.takeAll ts = some q) :
    ∀ t ∈ ts, t.kind ≠ .eof := by
  induction ts generalizing p with
  | nil => simp
  | cons t ts ih =>
    obtain ⟨p', taken, later⟩ := Option.bind_eq_some_iff.mp h
    exact List.forall_mem_cons.mpr ⟨ne_eof_of_take taken, ih later⟩

/-- Where not all tokens are taken, there is a first that is refused. -/
theorem exists_refused {ts : List Token} {p : Stand} (h : p.takeAll ts = none) :
    ∃ as t bs q, ts = as ++ t :: bs ∧ p.takeAll as = some q ∧ q.take t = none := by
  induction ts generalizing p with
  | nil => cases h
  | cons t ts ih =>
    cases taken : p.take t with
    | none => exact ⟨[], t, ts, p, rfl, rfl, taken⟩
    | some p' =>
      obtain ⟨as, u, bs, q, rfl, before, refused⟩ := ih (p := p') (by simpa [taken] using h)
      exact ⟨t :: as, u, bs, q, rfl, by simpa [taken] using before, refused⟩

/-- Where the reader stands, the reading that comes next makes it give up. -/
inductive Rejects : Stand → Reading → ReadError → Prop where
  | fault (p : Stand) (e : ScanError) : Rejects p (.error e) (.ofScan e)
  | ended (frame : Frame) (outer : List Hole) (line : Nat) :
      Rejects (.inside frame outer) (.ok ⟨.eof, line⟩) ⟨frame.faultAtEnd, line⟩
  | stray (line : Nat) :
      Rejects .between (.ok ⟨.rightParen, line⟩) ⟨.nonExpression .rightParen, line⟩
  | refused {t : Token} {frame : Frame} {outer : List Hole} {err : ReadError} {kept : Bool}
      (more : t.kind ≠ .eof) (see : frame.see t = .refuse err kept) :
      Rejects (.inside frame outer) (.ok t) err

end Stand

/-- The error says that the text ends too early. -/
def ReadError.AtEnd (e : ReadError) : Prop :=
  e.fault = .unexpectedEof ∨ ∃ expected, e.fault = .unexpectedToken .eof expected

namespace Frame

theorem atEnd_faultAtEnd (frame : Frame) (line : Nat) : ReadError.AtEnd ⟨frame.faultAtEnd, line⟩ := by
  cases frame with
  | functionHead | parametersStart | properties => exact .inr ⟨_, rfl⟩
  | operand | assignedName | parameters | propertyName | propertyEnd | memberName | complete =>
    exact .inl rfl

/-- A token that is refused is not complained about as the end of the text. -/
theorem not_atEnd_of_refuse {t : Token} {frame : Frame} {e : ReadError} {kept : Bool}
    (more : t.kind ≠ .eof) (h : frame.see t = .refuse e kept) : ¬e.AtEnd := by
  cases frame with
  | operand hole =>
    cases hole <;> grind [see, seeOperand, special?, refuseToken, Hole.close, ReadError.AtEnd]
  | assignedName | functionHead | parametersStart | parameters | properties | propertyName
  | propertyEnd | memberName | complete => grind [see, takeName, refuseToken, ReadError.AtEnd]

end Frame

namespace Reader

open TokenSource

section
variable {σ : Type} [TokenSource σ]

/-- How the reading of a script goes on behind a form. -/
def goOn (held : List Expr) : Except ReadError Expr × σ → Except ReadError Script × σ
  | (.ok e, s) => readForms (e :: held) s
  | (.error e, s) => (.error e, s)

/-- Read a script from where the reader stands; `held` are the forms read before, last one first. -/
def resume (held : List Expr) (s : σ) : Stand → Except ReadError Script × σ
  | .between => readForms held s
  | .inside frame outer => goOn held (readForm frame outer s)

theorem peek_of_look {s s' : σ} {r : Reading} (look : peek s = (r, s')) : peek s' = (r, s') := by
  have again := peek_peek s
  rwa [look] at again

theorem resume_between {s s' : σ} {t : Token} (look : peek s = (.ok t, s')) (more : t.kind ≠ .eof)
    (held : List Expr) : resume held s .between = goOn held (readExpr s') := by
  rw [resume, readForms_token look more]
  rcases readExpr s' with ⟨_ | _, _⟩ <;> rfl

/-- A token that is taken leads where it is said to lead. -/
theorem resume_take {s s' : σ} {t : Token} {p q : Stand} (look : peek s = (.ok t, s'))
    (taken : p.take t = some q) (held : List Expr) :
    ∃ held', resume held s p = resume held' (next s').2 q := by
  have more := Stand.ne_eof_of_take taken
  cases p with
  | between =>
    rw [resume_between look more]
    simp only [readExpr, peek_of_look look]
    simp only [Stand.take] at taken
    split at taken
    · next opens =>
      cases taken
      simp only [opens, Token.atom?]
      exact ⟨held, rfl⟩
    · obtain ⟨e, atom, rfl⟩ := Option.map_eq_some_iff.mp taken
      rw [atom]
      exact ⟨e :: held, rfl⟩
  | inside frame outer =>
    rw [resume, readForm_token look more]
    simp only [Stand.take, if_neg more] at taken
    cases see : frame.see t with
    | shift | descend =>
      rw [see] at taken
      cases taken
      exact ⟨held, rfl⟩
    | finish whole =>
      rw [see] at taken
      cases taken
      cases outer with
      | nil => exact ⟨whole :: held, rfl⟩
      | cons hole outer => exact ⟨held, rfl⟩
    | refuse =>
      rw [see] at taken
      cases taken

/-- Wherever the reader stands, an error that comes next is what it reports. -/
theorem resume_error {s s' : σ} {e : ScanError} (look : peek s = (.error e, s')) (held : List Expr)
    (p : Stand) : (resume held s p).1 = .error (.ofScan e) := by
  cases p with
  | between => rw [resume, readForms_error look]
  | inside frame outer =>
    rw [resume, readForm_error look]
    rfl

/-- Reading that fails either fails for what comes next or takes it. -/
theorem rejects_or_take {s s' : σ} {r : Reading} {held : List Expr} {p : Stand} {err : ReadError}
    (look : peek s = (r, s')) (failed : (resume held s p).1 = .error err) :
    p.Rejects r err ∨ ∃ t q, r = .ok t ∧ p.take t = some q := by
  cases r with
  | error e =>
    rw [resume_error look] at failed
    cases failed
    exact .inl (.fault p e)
  | ok t =>
    obtain ⟨kind, line⟩ := t
    by_cases ended : kind = .eof
    · subst ended
      cases p with
      | between =>
        rw [resume, readForms_end look rfl] at failed
        cases failed
      | inside frame outer =>
        rw [resume, readForm_end look rfl] at failed
        cases failed
        exact .inl (.ended frame outer line)
    · cases taken : p.take ⟨kind, line⟩ with
      | some q => exact .inr ⟨_, q, rfl, taken⟩
      | none =>
        left
        cases p with
        | between =>
          obtain rfl : kind = .rightParen := by
            cases kind <;> grind [Stand.take, Token.atom?]
          rw [resume_between look ended] at failed
          simp only [readExpr, peek_of_look look] at failed
          cases failed
          exact .stray line
        | inside frame outer =>
          rw [resume, readForm_token look ended] at failed
          simp only [Stand.take, if_neg ended] at taken
          cases see : frame.see ⟨kind, line⟩ with
          | shift | descend | finish =>
            rw [see] at taken
            cases taken
          | refuse err' kept =>
            rw [see] at failed
            cases failed
            exact .refused ended see

/-- A token that is refused is the last that is looked at. -/
theorem resume_refuse {s s' : σ} {t : Token} {p : Stand} (look : peek s = (.ok t, s'))
    (more : t.kind ≠ .eof) (refused : p.take t = none) (held : List Expr) :
    ∃ e s'', resume held s p = (.error e, s'') ∧ ¬e.AtEnd ∧ (s'' = s' ∨ s'' = (next s').2) := by
  cases p with
  | between =>
    rw [resume_between look more]
    simp only [readExpr, peek_of_look look]
    simp only [Stand.take] at refused
    split at refused
    · cases refused
    · simp only [Option.map_eq_none_iff.mp refused]
      exact ⟨_, _, rfl, by simp [ReadError.AtEnd], .inr rfl⟩
  | inside frame outer =>
    rw [resume, readForm_token look more]
    simp only [Stand.take, if_neg more] at refused
    cases see : frame.see t with
    | shift | descend | finish =>
      rw [see] at refused
      cases refused
    | refuse e kept =>
      refine ⟨e, _, rfl, Frame.not_atEnd_of_refuse more see, ?_⟩
      cases kept with
      | true => exact .inl rfl
      | false => exact .inr rfl

end

/-- Sources in the relation have the readings of the cursor ahead, and hold none of them. -/
structure Feeds {σ : Type} [TokenSource σ] (R : σ → Cursor → Prop) : Prop where
  token : ∀ {s t rs last}, R s ⟨.ok t :: rs, last⟩ →
    ∃ s', peek s = (.ok t, s') ∧ R (next s').2 ⟨rs, last⟩
  ended : ∀ {s last}, R s ⟨[], last⟩ → ∃ s', peek s = (.ok ⟨.eof, last⟩, s')

/-- Reading that fails has taken tokens, and fails where they lead, for what comes behind them. The
induction is on the readings, and the reader may stand anywhere. -/
theorem exists_rejects {rs : List Reading} {last : Nat} {held : List Expr} {p : Stand}
    {err : ReadError} (failed : (resume held (Cursor.mk rs last) p).1 = .error err) :
    ∃ ts r rest q, rs ++ [.ok ⟨.eof, last⟩] = ts.map .ok ++ r :: rest ∧ p.takeAll ts = some q ∧
      q.Rejects r err := by
  induction rs generalizing held p with
  | nil =>
    obtain rejects | ⟨t, q, last, taken⟩ := rejects_or_take (r := .ok ⟨.eof, last⟩) rfl failed
    · exact ⟨[], _, [], p, rfl, rfl, rejects⟩
    · cases last
      exact absurd rfl (Stand.ne_eof_of_take taken)
  | cons r rs ih =>
    obtain rejects | ⟨t, q, rfl, taken⟩ := rejects_or_take (r := r) rfl failed
    · exact ⟨[], r, _, p, rfl, rfl, rejects⟩
    · obtain ⟨held', same⟩ := resume_take (s := Cursor.mk (.ok t :: rs) last) rfl taken held
      rw [same] at failed
      obtain ⟨ts, r, rest, q', readings, later, rejects⟩ := ih failed
      refine ⟨t :: ts, r, rest, q', ?_, by simpa [taken] using later, rejects⟩
      rw [List.cons_append, readings]
      rfl

theorem feeds_cursor : Feeds fun c c' : Cursor => c = c' where
  token := by
    rintro _ t rs last rfl
    exact ⟨_, rfl, rfl⟩
  ended := by
    rintro _ last rfl
    exact ⟨_, rfl⟩

/-- The lookahead holds nothing, and its scanner has the readings of the cursor ahead. -/
def Awaits (s : Lookahead) (c : Cursor) : Prop := s.held = none ∧ s.scanner.Scans c

theorem feeds_lookahead : Feeds Awaits where
  token := by
    rintro ⟨_, scanner⟩ t rs last ⟨rfl, scans⟩
    obtain ⟨now, -, later⟩ := Scanner.Scans.next_cons scans
    exact ⟨_, Prod.ext now rfl, rfl, later⟩
  ended := by
    rintro ⟨_, scanner⟩ last ⟨rfl, scans⟩
    exact ⟨_, Prod.ext (Scanner.Scans.next_nil scans).1 rfl⟩

section
variable {σ : Type} [TokenSource σ] {R : σ → Cursor → Prop} (feeds : Feeds R)
include feeds

/-- Tokens that are taken lead where they are said to lead. -/
theorem resume_takeAll {ts : List Token} {rest : List Reading} {last : Nat} {s : σ} {p q : Stand}
    (here : R s (ahead ts rest last)) (taken : p.takeAll ts = some q) (held : List Expr) :
    ∃ held' s', resume held s p = resume held' s' q ∧ R s' ⟨rest, last⟩ := by
  induction ts generalizing s p held with
  | nil =>
    cases taken
    exact ⟨held, s, rfl, here⟩
  | cons t ts ih =>
    obtain ⟨p', now, later⟩ := Option.bind_eq_some_iff.mp taken
    obtain ⟨s', look, there⟩ := feeds.token here
    obtain ⟨held', same⟩ := resume_take look now held
    rw [same]
    exact ih there later held'

/-! Reading ends in one of three ways: all tokens are taken and no form is open, a form is still
open, or a token is refused. -/

theorem readForms_between {ts : List Token} {last : Nat} {s : σ} (here : R s (ahead ts [] last))
    (taken : Stand.between.takeAll ts = some .between) (held : List Expr) :
    ∃ script, (readForms held s).1 = .ok script := by
  obtain ⟨held', s', same, there⟩ := resume_takeAll feeds here taken held
  obtain ⟨s'', look⟩ := feeds.ended there
  refine ⟨⟨held'.reverse⟩, ?_⟩
  rw [← resume, same, resume, readForms_end look rfl]

theorem readForms_inside {ts : List Token} {last : Nat} {s : σ} {frame : Frame} {outer : List Hole}
    (here : R s (ahead ts [] last)) (taken : Stand.between.takeAll ts = some (.inside frame outer))
    (held : List Expr) : ∃ e, (readForms held s).1 = .error e ∧ e.AtEnd := by
  obtain ⟨held', s', same, there⟩ := resume_takeAll feeds here taken held
  obtain ⟨s'', look⟩ := feeds.ended there
  refine ⟨⟨frame.faultAtEnd, last⟩, ?_, frame.atEnd_faultAtEnd last⟩
  rw [← resume, same, resume, readForm_end look rfl]
  rfl

theorem readForms_refused {ts : List Token} {t : Token} {rest : List Reading} {last : Nat} {s : σ}
    {p : Stand} (here : R s (ahead ts (.ok t :: rest) last))
    (taken : Stand.between.takeAll ts = some p) (more : t.kind ≠ .eof) (refused : p.take t = none)
    (held : List Expr) : ∃ e s₁ s₂, peek s₁ = (.ok t, s₂) ∧ R (next s₂).2 ⟨rest, last⟩ ∧
      (readForms held s).1 = .error e ∧ ¬e.AtEnd ∧
        ((readForms held s).2 = s₂ ∨ (readForms held s).2 = (next s₂).2) := by
  obtain ⟨held', s₁, same, there⟩ := resume_takeAll feeds here taken held
  obtain ⟨s₂, look, after⟩ := feeds.token there
  obtain ⟨e, s', stopped, other, left⟩ := resume_refuse look more refused held'
  rw [← resume, same, stopped]
  exact ⟨e, s₁, s₂, look, after, rfl, other, left⟩

end
end Reader

open Reader

/-- A text that is rejected is rejected where the reader stands behind some of its tokens, and for
what comes next. -/
theorem Script.exists_rejects {text : String} {err : ReadError}
    (rejected : Script.ofText text = .error err) : ∃ ts r rest p,
      (Scanner.ofText text).readings = ts.map .ok ++ r :: rest ∧
      Stand.between.takeAll ts = some p ∧ p.Rejects r err := by
  obtain ⟨⟨rs, last⟩, scans⟩ := (Scanner.ofText text).exists_scans
  rw [Script.ofText_eq_readScript scans] at rejected
  have failed : (resume [] (Cursor.mk rs last) .between).1 = .error err := rejected
  obtain ⟨ts, r, rest, p, readings, taken, rejects⟩ := Reader.exists_rejects failed
  exact ⟨ts, r, rest, p, scans.trans readings, taken, rejects⟩

end Lisplet
