import Mathlib.Data.List.Nodup
import Lisplet.Proofs.Reader.Acceptance
import Lisplet.Proofs.Reader.Stand
import Lisplet.Proofs.Token.Append
import Lisplet.Proofs.Token.Position
/-!
What the reader complains about is there. Behind the tokens that it has taken it stands in a form that
these tokens open (`Stand.Reached`), so whatever makes it give up can be told from the tokens of that
form and from what comes next, and nothing else: `ReadError.Blames` says so for each sort of error,
and which of the tokens is on the line that the error gives. A text is rejected for such a reason
(`Script.exists_blames`), and on one of its lines, but for a text that is too short, which is rejected
on the line of its end (`rejected_where_blamed`).
-/
namespace Lisplet

/-- The form lacks operands; its opening parenthesis is on line `l`. -/
inductive Lacking (l : Nat) : Keyword → Malformation → List Token → Prop where
  | nameAndValue (k : Nat) (mode : AssignMode) :
      Lacking l (.assign mode) .missingNameAndValue (special l k (.assign mode) [])
  | value (k n : Nat) (mode : AssignMode) (x : String) :
      Lacking l (.assign mode) .missingValue (special l k (.assign mode) [⟨.symbol x, n⟩])
  | conditionAndBranch (k : Nat) :
      Lacking l .conditional .missingConditionAndBranch (special l k .conditional [])
  | branch (k : Nat) {c cs} (condition : Spells (.expr c) cs) :
      Lacking l .conditional .missingBranch (special l k .conditional cs)

/-- The form has all the operands that it can have and is not closed. In an object it is a property
that has its value and is not closed. -/
inductive Full : Keyword → List Token → Prop where
  | assign (l k n : Nat) (mode : AssignMode) (x : String) {ts e} (value : Spells (.expr e) ts) :
      Full (.assign mode) (special l k (.assign mode) (⟨.symbol x, n⟩ :: ts))
  | leave (l k : Nat) {ts e} (value : Spells (.expr e) ts) : Full .leave (special l k .leave ts)
  | conditional (l k : Nat) {cs ts us c t e} (condition : Spells (.expr c) cs)
      (yes : Spells (.expr t) ts) (no : Spells (.expr e) us) :
      Full .conditional (special l k .conditional (cs ++ ts ++ us))
  | property (l k m n : Nat) (x : String) {ts us ps e} (properties : Spells (.properties ps) ts)
      (value : Spells (.expr e) us) :
      Full .object (special l k .object (ts ++ ⟨.leftParen, m⟩ :: ⟨.symbol x, n⟩ :: us))
  | field (l k n : Nat) (x : String) {ts e} (receiver : Spells (.expr e) ts) :
      Full .field (special l k .field (ts ++ [⟨.symbol x, n⟩]))
  | setField (l k n : Nat) (x : String) {ts us e v} (receiver : Spells (.expr e) ts)
      (value : Spells (.expr v) us) :
      Full .setField (special l k .setField (ts ++ ⟨.symbol x, n⟩ :: us))

/-- What an error says of the place where reading stops, and what is on its line. The place is in the
middle of a form, of which the tokens `form` have been read, and `r` is what comes next. -/
def ReadError.Blames (form : List Token) (r : Reading) (err : ReadError) : Prop :=
  match err.fault with
  | .scan e => r = .error e ∧ err.line = e.line
  | .unexpectedEof => r = .ok ⟨.eof, err.line⟩
  | .unexpectedToken actual expected =>
    r = .ok ⟨actual, err.line⟩ ∧ expected = .leftParen ∧ actual ≠ .leftParen
  | .nonName actual => r = .ok ⟨actual, err.line⟩ ∧ actual ≠ .eof ∧ ∀ x, actual ≠ .symbol x
  | .nonExpression actual => r = .ok ⟨actual, err.line⟩ ∧ actual = .rightParen
  | .emptyForm => (∃ n, r = .ok ⟨.rightParen, n⟩) ∧ form = [⟨.leftParen, err.line⟩]
  | .malformedForm keyword .tooManyOperands => Full keyword form ∧
    ∃ kind, r = .ok ⟨kind, err.line⟩ ∧ kind ≠ .rightParen ∧ kind ≠ .eof
  | .malformedForm keyword malformation =>
    (∃ n, r = .ok ⟨.rightParen, n⟩) ∧ Lacking err.line keyword malformation form
  | .duplicateProperty x => (∃ n, r = .ok ⟨.symbol x, n⟩) ∧ ∃ l k ts ps,
    form = special l k .object (ts ++ [⟨.leftParen, err.line⟩]) ∧ Spells (.properties ps) ts ∧
      (ps.map (·.1)).count x = 1

/-! Where the reader stands behind the tokens that it has taken. -/

/-- The tokens are what has been read of the form, and if nothing but its closing parenthesis is due,
it has all its operands. -/
structure Frame.Reached (frame : Frame) (ts : List Token) : Prop where
  opened : frame.Opened ts
  full : ∀ keyword whole, frame = .complete keyword whole → Full keyword ts

/-- The last of the tokens are what has been read of the open forms. -/
def Stand.Reached : Stand → List Token → Prop
  | .between, _ => True
  | .inside frame outer, ts => ∃ before as bs, ts = before ++ (as ++ bs) ∧ Waiting outer as ∧
      frame.Reached bs

/-- The operand that makes a form complete is its last. -/
theorem Hole.Opened.full_fill {hole : Hole} {ts us : List Token} {e whole : Expr} {keyword : Keyword}
    (h : hole.Opened ts) (he : Spells (.expr e) us) (complete : hole.fill e = .complete keyword whole) :
    Full keyword (ts ++ us) := by
  cases hole with
  | assigned l mode x =>
    obtain ⟨k, n, rfl⟩ := h
    cases complete
    exact .assign l k n mode x he
  | returned l =>
    obtain ⟨k, rfl⟩ := h
    cases complete
    exact .leave l k he
  | elseBranch l c t =>
    obtain ⟨k, cs, vs, rfl, hc, ht⟩ := h
    cases complete
    exact .conditional l k hc ht he
  | member l receiver x =>
    obtain ⟨k, n, vs, rfl, hr⟩ := h
    cases complete
    simpa [special] using Full.setField l k n x hr he
  | callee | operands | condition | thenBranch | property | receiver => cases complete

theorem Hole.Opened.reached_fill {hole : Hole} {ts us : List Token} {e : Expr} (h : hole.Opened ts)
    (he : Spells (.expr e) us) (start : ∀ l, hole = .callee l → StartsCall us) :
    (hole.fill e).Reached (ts ++ us) :=
  ⟨h.fill he start, fun _ _ complete => h.full_fill he complete⟩

/-- No keyword makes a form complete. -/
theorem Frame.ofKeyword_ne_complete (line : Nat) (w keyword : Keyword) (whole : Expr) :
    ofKeyword line w ≠ .complete keyword whole := by
  cases w <;> simp [ofKeyword]

/-- A token that makes a form complete is its last operand, or the name of a field. -/
theorem Frame.Opened.full_shift {frame : Frame} {ts : List Token} {t : Token} {keyword : Keyword}
    {whole : Expr} (h : frame.Opened ts) (see : frame.see t = .shift (.complete keyword whole)) :
    Full keyword (ts ++ [t]) := by
  cases frame with
  | operand hole =>
    simp only [Frame.see, seeOperand] at see
    split at see
    · next frame' head =>
      cases hole with
      | callee l =>
        obtain ⟨kind, line⟩ := t
        cases kind with
        | symbol x =>
          obtain ⟨w, -, rfl⟩ := Option.map_eq_some_iff.mp head
          exact absurd (Move.shift.inj see) (ofKeyword_ne_complete l w keyword whole)
        | leftParen | rightParen | integer | string | eof => cases head
      | operands | assigned | returned | condition | thenBranch | elseBranch | property | receiver
      | member => cases head
    · split at see
      · next e atom => exact Hole.Opened.full_fill h (Token.spells_atom atom) (Move.shift.inj see)
      · split at see
        · cases see
        · cases hole <;> cases see
  | memberName l use e =>
    obtain ⟨k, us, rfl, he⟩ := h
    obtain ⟨kind, line⟩ := t
    cases kind with
    | symbol x =>
      cases use with
      | read =>
        cases see
        exact .field l k line x he
      | write | invoke => cases see
    | leftParen | rightParen | integer | string | eof => cases see
  | assignedName | functionHead | parametersStart | parameters | properties | propertyName
  | propertyEnd | complete => grind [Frame.see, takeName, refuseToken]

namespace Stand

theorem reached_open {t : Token} (opens : t.kind = .leftParen) :
    (Frame.operand (.callee t.line)).Reached [t] := by
  refine ⟨?_, fun _ _ complete => by cases complete⟩
  obtain ⟨kind, line⟩ := t
  exact congrArg (fun k => [Token.mk k line]) opens

/-- A token that is taken belongs to the form that is open behind it. -/
theorem Reached.take {p q : Stand} {ts : List Token} {t : Token} (h : p.Reached ts)
    (taken : p.take t = some q) : q.Reached (ts ++ [t]) := by
  have more := ne_eof_of_take taken
  cases p with
  | between =>
    simp only [Stand.take] at taken
    split at taken
    · next opens =>
      cases taken
      exact ⟨ts, [], [t], rfl, rfl, reached_open opens⟩
    · obtain ⟨_, -, rfl⟩ := Option.map_eq_some_iff.mp taken
      trivial
  | inside frame outer =>
    obtain ⟨before, as, bs, rfl, wait, reached⟩ := h
    have sound := reached.opened.see more
    simp only [Stand.take, if_neg more] at taken
    cases see : frame.see t with
    | shift frame' =>
      rw [see] at taken sound
      cases taken
      refine ⟨before, as, bs ++ [t], by simp, wait, sound, ?_⟩
      rintro keyword whole rfl
      exact reached.opened.full_shift see
    | descend hole =>
      rw [see] at taken sound
      cases taken
      exact ⟨before, as ++ bs, [t], by simp, ⟨as, bs, rfl, wait, sound.1⟩, reached_open sound.2⟩
    | finish whole =>
      rw [see] at taken sound
      cases taken
      cases outer with
      | nil => trivial
      | cons hole outer =>
        obtain ⟨cs, ds, rfl, wait', opened⟩ := wait
        have start := sound.2.startsCall (by simpa using sound.1)
        exact ⟨before, cs, ds ++ (bs ++ [t]), by simp, wait',
          opened.reached_fill sound.2 fun _ _ => start⟩
    | refuse err kept =>
      rw [see] at taken
      cases taken

/-- So the tokens that have been taken last are what has been read of the open forms. -/
theorem Reached.takeAll {p q : Stand} {ts us : List Token} (h : p.Reached ts)
    (taken : p.takeAll us = some q) : q.Reached (ts ++ us) := by
  induction us generalizing p ts with
  | nil =>
    cases taken
    simpa using h
  | cons t us ih =>
    obtain ⟨p', now, later⟩ := Option.bind_eq_some_iff.mp taken
    simpa using ih (h.take now) later

end Stand

/-! What is blamed. -/

/-- A token where a name is due is refused for what follows from the name, or for being no name. -/
theorem Frame.takeName_eq_refuse {t : Token} {next : String → Move} {err : ReadError} {kept : Bool}
    (h : takeName t next = .refuse err kept) :
    (∃ x, t.kind = .symbol x ∧ next x = .refuse err kept) ∨
      err = ⟨.nonName t.kind, t.line⟩ ∧ ∀ x, t.kind ≠ .symbol x := by
  unfold takeName at h
  split at h
  · next x hx => exact .inl ⟨x, hx, h⟩
  · next other =>
    cases h
    exact .inr ⟨rfl, other⟩

/-- A closing parenthesis is refused in place of the operand that the form lacks. -/
theorem Hole.Opened.blames_close {hole : Hole} {form : List Token} {err : ReadError} {kept : Bool}
    (h : hole.Opened form) (closed : hole.close = some (.refuse err kept)) (line : Nat) :
    err.Blames form (.ok ⟨.rightParen, line⟩) := by
  cases hole with
  | callee l =>
    cases closed
    exact ⟨⟨line, rfl⟩, h⟩
  | assigned l mode x =>
    obtain ⟨k, n, rfl⟩ := h
    cases closed
    exact ⟨⟨line, rfl⟩, .value k n mode x⟩
  | condition l =>
    obtain ⟨k, rfl⟩ := h
    cases closed
    exact ⟨⟨line, rfl⟩, .conditionAndBranch k⟩
  | thenBranch l c =>
    obtain ⟨k, cs, rfl, hc⟩ := h
    cases closed
    exact ⟨⟨line, rfl⟩, .branch k hc⟩
  | operands | returned | elseBranch | property | receiver | member => cases closed

/-- Where an operand is due, only a closing parenthesis is refused. -/
theorem Hole.Opened.blames {hole : Hole} {form : List Token} {t : Token} {err : ReadError}
    {kept : Bool} (h : hole.Opened form) (more : t.kind ≠ .eof)
    (see : Frame.seeOperand hole t = .refuse err kept) : err.Blames form (.ok t) := by
  unfold Frame.seeOperand at see
  split at see
  · cases see
  split at see
  · cases see
  · next atom =>
    obtain ⟨kind, line⟩ := t
    split at see
    · cases see
    · next other =>
      obtain rfl : kind = .rightParen := by
        cases kind <;> grind [Token.atom?]
      cases closed : hole.close with
      | none =>
        rw [closed] at see
        cases see
        exact ⟨rfl, rfl⟩
      | some move =>
        rw [closed] at see
        cases see
        exact h.blames_close closed line

/-- A token that is refused is to blame, together with what has been read of the form. -/
theorem Frame.Reached.blames {frame : Frame} {form : List Token} {t : Token} {err : ReadError}
    {kept : Bool} (h : frame.Reached form) (more : t.kind ≠ .eof)
    (see : frame.see t = .refuse err kept) : err.Blames form (.ok t) := by
  have opened := h.opened
  cases frame with
  | operand hole => exact Hole.Opened.blames opened more see
  | assignedName l mode =>
    simp only [Frame.see] at see
    split at see
    · next closes =>
      obtain ⟨k, rfl⟩ := opened
      obtain ⟨kind, line⟩ := t
      obtain rfl : kind = .rightParen := closes
      cases see
      exact ⟨⟨line, rfl⟩, .nameAndValue k mode⟩
    · obtain ⟨x, -, goes⟩ | ⟨rfl, other⟩ := takeName_eq_refuse see
      · cases goes
      · exact ⟨rfl, more, other⟩
  | functionHead l =>
    simp only [Frame.see] at see
    split at see
    · cases see
    · cases see
    · next opens =>
      cases see
      exact ⟨rfl, rfl, opens⟩
  | parametersStart l x =>
    simp only [Frame.see] at see
    split at see
    · cases see
    · next opens =>
      cases see
      exact ⟨rfl, rfl, opens⟩
  | parameters l name held =>
    simp only [Frame.see] at see
    split at see
    · cases see
    · obtain ⟨x, -, goes⟩ | ⟨rfl, other⟩ := takeName_eq_refuse see
      · cases goes
      · exact ⟨rfl, more, other⟩
  | properties l held =>
    simp only [Frame.see] at see
    split at see
    · cases see
    · cases see
    · next opens =>
      cases see
      exact ⟨rfl, rfl, opens⟩
  | propertyName l held start =>
    obtain ⟨x, name, goes⟩ | ⟨rfl, other⟩ := takeName_eq_refuse see
    · obtain ⟨as, rfl, k, ts, rfl, properties, distinct⟩ := opened
      obtain ⟨kind, line⟩ := t
      obtain rfl : kind = .symbol x := name
      split at goes
      · next known =>
        cases goes
        have mem : x ∈ held.map (·.1) := by simpa using known
        refine ⟨⟨line, rfl⟩, l, k, ts, held.reverse, by simp [special], properties, ?_⟩
        rw [List.map_reverse, List.count_reverse]
        exact List.count_eq_one_of_mem distinct mem
      · cases goes
    · exact ⟨rfl, more, other⟩
  | propertyEnd l held x e =>
    simp only [Frame.see] at see
    split at see
    · cases see
    · next closes =>
      obtain ⟨as, m, n, us, rfl, ⟨k, vs, rfl, properties, -⟩, -, value⟩ := opened
      cases see
      refine ⟨?_, t.kind, rfl, closes, more⟩
      simpa [special] using Full.property l k m n x properties value
  | memberName l use receiver =>
    obtain ⟨x, -, goes⟩ | ⟨rfl, other⟩ := takeName_eq_refuse see
    · cases goes
    · exact ⟨rfl, more, other⟩
  | complete keyword whole =>
    simp only [Frame.see] at see
    split at see
    · cases see
    · next closes =>
      cases see
      exact ⟨h.full keyword whole rfl, t.kind, rfl, closes, more⟩

/-- Whatever makes the reader give up is to blame, with what has been read of the innermost form. -/
theorem Stand.Rejects.blames {p : Stand} {ts : List Token} {r : Reading} {err : ReadError}
    (rejects : p.Rejects r err) (h : p.Reached ts) :
    ∃ before form, ts = before ++ form ∧ err.Blames form r := by
  cases rejects with
  | fault p e => exact ⟨ts, [], by simp, rfl, rfl⟩
  | ended frame outer line =>
    refine ⟨ts, [], by simp, ?_⟩
    cases frame with
    | functionHead | parametersStart | properties => exact ⟨rfl, rfl, by simp⟩
    | operand | assignedName | parameters | propertyName | propertyEnd | memberName | complete =>
      exact rfl
  | stray line => exact ⟨ts, [], by simp, rfl, rfl⟩
  | refused more see =>
    obtain ⟨before, as, form, rfl, -, reached⟩ := h
    exact ⟨before ++ as, form, by simp, reached.blames more see⟩

/-- A text that is rejected is rejected for what its readings have after some tokens. -/
theorem Script.exists_blames {text : String} {err : ReadError}
    (rejected : Script.ofText text = .error err) : ∃ before form r rest,
      (Scanner.ofText text).readings = (before ++ form).map .ok ++ r :: rest ∧ err.Blames form r := by
  obtain ⟨ts, r, rest, p, readings, taken, rejects⟩ := Script.exists_rejects rejected
  have start : Stand.between.Reached [] := trivial
  obtain ⟨before, form, rfl, blames⟩ := rejects.blames (start.takeAll taken)
  exact ⟨before, form, r, rest, readings, blames⟩

theorem Lacking.mem_form {l : Nat} {keyword : Keyword} {malformation : Malformation}
    {form : List Token} (h : Lacking l keyword malformation form) : ⟨.leftParen, l⟩ ∈ form := by
  cases h <;> exact List.mem_cons_self

/-- An error that does not say that the text ends is on the line of a parenthesis of the form, or of
what comes next and is not the end. -/
theorem ReadError.Blames.exists_line {form : List Token} {r : Reading} {err : ReadError}
    (h : err.Blames form r) (other : ¬err.AtEnd) :
    ⟨.leftParen, err.line⟩ ∈ form ∨ r.isEnd = false ∧ r.line = err.line := by
  obtain ⟨fault, line⟩ := err
  cases fault with
  | scan e =>
    obtain ⟨rfl, same⟩ := h
    exact .inr ⟨rfl, same.symm⟩
  | unexpectedEof => exact absurd (.inl rfl) other
  | unexpectedToken actual expected =>
    obtain ⟨rfl, -, -⟩ := h
    refine .inr ⟨?_, rfl⟩
    cases actual with
    | eof => exact absurd (.inr ⟨expected, rfl⟩) other
    | leftParen | rightParen | integer | string | symbol => rfl
  | nonName actual =>
    obtain ⟨rfl, more, -⟩ := h
    exact .inr ⟨by simpa using more, rfl⟩
  | nonExpression actual =>
    obtain ⟨rfl, rfl⟩ := h
    exact .inr ⟨rfl, rfl⟩
  | emptyForm =>
    obtain ⟨-, rfl⟩ := h
    exact .inl List.mem_cons_self
  | malformedForm keyword malformation =>
    cases malformation with
    | tooManyOperands =>
      obtain ⟨-, kind, rfl, -, more⟩ := h
      exact .inr ⟨by simpa using more, rfl⟩
    | missingNameAndValue | missingValue | missingConditionAndBranch | missingBranch =>
      exact .inl h.2.mem_form
  | duplicateProperty x =>
    obtain ⟨-, l, k, ts, ps, rfl, -, -⟩ := h
    exact .inl (by simp [special])

/-- An error that says that the text ends is on the line of the end. -/
theorem ReadError.Blames.eq_end {form : List Token} {r : Reading} {err : ReadError}
    (h : err.Blames form r) (atEnd : err.AtEnd) : r = .ok ⟨.eof, err.line⟩ := by
  obtain ⟨fault, line⟩ := err
  obtain rfl | ⟨expected, rfl⟩ := atEnd
  · exact h
  · exact h.1

/-- The end is read on the line after all the line feeds. -/
theorem Scanner.line_of_mem_end {s : Scanner} {line : Nat} (mem : .ok ⟨.eof, line⟩ ∈ s.readings) :
    line = s.line + s.rest.count '\n' := by
  obtain ⟨⟨rs, last⟩, scans⟩ := s.exists_scans
  have all : s.readings = rs ++ [.ok ⟨.eof, last⟩] := scans
  rw [all, List.mem_append, List.mem_singleton] at mem
  obtain earlier | same := mem
  · have more := Scans.not_isEnd scans _ earlier
    simp at more
  · cases same
    exact Scans.last_eq scans

/-- A text that is rejected is rejected for what is there: behind some tokens, the last of which open
a form, something comes that is as the error says it is, or is wrong in that form as the error says,
and the line is the line of what is blamed. If the error is that the text ends too early, this is the
line after all the line feeds; otherwise it is one of the lines of the text. If the text has few
enough feeds, line numbers of 32 bits are enough. -/
theorem rejected_where_blamed (text : String) (err : ReadError)
    (rejected : Script.ofText text = .error err) :
    (∃ before form r rest, (Scanner.ofText text).readings =
      (before ++ form).map .ok ++ r :: rest ∧ err.Blames form r) ∧
    (err.AtEnd → err.line = 1 + text.toList.count '\n') ∧
    (¬err.AtEnd → 1 ≤ err.line ∧ err.line ≤ (Line.split text).length) ∧
    (text.toList.count '\n' < 4294967295 →
      err.line ≤ 4294967295 ∧ (Line.split text).length ≤ 4294967295) := by
  obtain ⟨before, form, r, rest, readings, blames⟩ := Script.exists_blames rejected
  have ended : err.AtEnd → err.line = 1 + text.toList.count '\n' := by
    intro atEnd
    have mem : .ok ⟨.eof, err.line⟩ ∈ (Scanner.ofText text).readings := by
      rw [readings, blames.eq_end atEnd]
      simp
    exact Scanner.line_of_mem_end mem
  have within : ¬err.AtEnd → 1 ≤ err.line ∧ err.line ≤ (Line.split text).length := by
    intro other
    obtain opening | ⟨more, line⟩ := blames.exists_line other
    · have mem : .ok ⟨.leftParen, err.line⟩ ∈ (Scanner.ofText text).readings := by
        rw [readings]
        simp [opening]
      exact Scanner.line_mem_split mem rfl
    · rw [← line]
      exact Scanner.line_mem_split (by simp [readings]) more
  refine ⟨⟨before, form, r, rest, readings, blames⟩, ended, within, ?_⟩
  intro few
  have lines := Line.length_split_le text
  by_cases atEnd : err.AtEnd
  · have line := ended atEnd
    omega
  · have bounds := within atEnd
    omega

/-- The second property of a name is blamed on the line of the parenthesis that opens it. -/
theorem rejected_where_blamed_property :
    Script.ofText "(f (new (a 1)\n(b 2)\n(a\n3)))" = .error ⟨.duplicateProperty "a", 3⟩ ∧
    (∃ before form r rest, (Scanner.ofText "(f (new (a 1)\n(b 2)\n(a\n3)))").readings =
      (before ++ form).map .ok ++ r :: rest ∧ ReadError.Blames form r ⟨.duplicateProperty "a", 3⟩) ∧
    3 ≤ (Line.split "(f (new (a 1)\n(b 2)\n(a\n3)))").length := by
  have rejected : Script.ofText "(f (new (a 1)\n(b 2)\n(a\n3)))" =
      .error ⟨.duplicateProperty "a", 3⟩ := by
    with_unfolding_all rfl
  obtain ⟨there, -, within, -⟩ := rejected_where_blamed _ _ rejected
  exact ⟨rejected, there, (within (by simp [ReadError.AtEnd])).2⟩

end Lisplet
