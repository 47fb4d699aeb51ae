import Mathlib.Algebra.Order.BigOperators.Group.List
import Mathlib.Algebra.Order.Group.Nat
import Lisplet.Proofs.Reader.Acceptance
import Lisplet.Proofs.Reader.Stand
import Lisplet.Proofs.Token.Lexeme
/-!
The reader gives up at the earliest token. Wherever it stands, some tokens close all that is open
(`Stand.closable`). So tokens are the beginning of a script just as long as the reader takes them
(`viable_iff`): the token that it refuses is the first that cannot be right, and at the end of the
text nothing is wrong but that more is missing.
-/
namespace Lisplet

/-! Whatever is open can be closed. -/

/-- Some tokens lead out of all open forms. -/
def Stand.Closable (p : Stand) : Prop :=
  ∃ ts : List Token, (∀ t ∈ ts, t.kind.Writable) ∧ p.takeAll ts = some .between

/-- There are names enough for one that is not in the list. -/
theorem exists_fresh_name (names : List String) : ∃ x, isName x = true ∧ x ∉ names := by
  -- a name that is longer than all of them together
  let x := String.ofList (List.replicate ((names.map String.length).sum + 1) 'x')
  refine ⟨x, ?_, fun mem => ?_⟩
  · rw [isName_iff]
    simp only [x, String.toList_ofList]
    refine ⟨by simp, ?_, ?_⟩
    · intro c hc
      rw [List.eq_of_mem_replicate hc]
      decide
    · rfl
  · have le : x.length ≤ (names.map String.length).sum :=
      List.le_sum_of_mem (List.mem_map_of_mem mem)
    simp only [x, String.length_ofList, List.length_replicate] at le
    omega

namespace Stand

theorem closable_between : between.Closable := ⟨[], by simp, rfl⟩

theorem Closable.of_take {p q : Stand} {t : Token} (later : q.Closable) (writable : t.kind.Writable)
    (taken : p.take t = some q) : p.Closable := by
  obtain ⟨ts, hts, closes⟩ := later
  exact ⟨t :: ts, List.forall_mem_cons.mpr ⟨writable, hts⟩, by simpa [taken] using closes⟩

section
variable {frame : Frame} {outer : List Hole}

theorem Closable.shift {frame' : Frame} {t : Token} (later : (inside frame' outer).Closable)
    (writable : t.kind.Writable) (see : frame.see t = .shift frame') :
    (inside frame outer).Closable :=
  later.of_take writable (by simp [take, writable.ne_eof, see, move])

/-- An integer can stand in the place of any operand. -/
theorem Closable.fill {hole : Hole}
    (later : (inside (hole.fill (.literal 1 (.integer 0))) outer).Closable) :
    (inside (.operand hole) outer).Closable := by
  refine later.shift (t := ⟨.integer 0, 1⟩) trivial ?_
  cases hole <;> rfl

variable (out : ∀ whole, (behind whole outer).Closable)
include out

theorem closable_finish {whole : Expr} (see : frame.see ⟨.rightParen, 1⟩ = .finish whole) :
    (inside frame outer).Closable :=
  (out whole).of_take (t := ⟨.rightParen, 1⟩) trivial (by simp [take, see, move])

theorem closable_complete (keyword : Keyword) (whole : Expr) :
    (inside (.complete keyword whole) outer).Closable := closable_finish out rfl

theorem closable_operands (line : Nat) (collection : Collection) (held : List Expr) :
    (inside (.operand (.operands line collection held)) outer).Closable :=
  closable_finish out rfl

theorem closable_properties (line : Nat) (held : List (String × Expr)) :
    (inside (.properties line held) outer).Closable := closable_finish out rfl

theorem closable_propertyEnd (line : Nat) (held : List (String × Expr)) (name : String)
    (value : Expr) : (inside (.propertyEnd line held name value) outer).Closable :=
  (closable_properties out line ((name, value) :: held)).shift (t := ⟨.rightParen, 1⟩) trivial rfl

theorem closable_memberName (line : Nat) (use : MemberUse) (receiver : Expr) :
    (inside (.memberName line use receiver) outer).Closable := by
  have later : (inside (Frame.ofMember line receiver "x" use) outer).Closable := by
    cases use with
    | read => exact closable_complete out ..
    | write => exact .fill (closable_complete out ..)
    | invoke => exact closable_operands out ..
  exact later.shift (t := ⟨.symbol "x", 1⟩) (show isName "x" = true by decide) rfl

theorem closable_operand (hole : Hole) : (inside (.operand hole) outer).Closable := by
  have lastBranch line test yes :
      (inside (.operand (.elseBranch line test yes)) outer).Closable := closable_finish out rfl
  cases hole with
  | callee => exact .fill (closable_operands out ..)
  | operands => exact closable_operands out ..
  | returned => exact closable_finish out rfl
  | assigned | member => exact .fill (closable_complete out ..)
  | condition => exact .fill (.fill (lastBranch ..))
  | thenBranch => exact .fill (lastBranch ..)
  | elseBranch => exact lastBranch ..
  | property => exact .fill (closable_propertyEnd out ..)
  | receiver => exact .fill (closable_memberName out ..)

theorem closable_parameters (line : Nat) (name : Option String) (held : List String) :
    (inside (.parameters line name held) outer).Closable :=
  (closable_operands out ..).shift (t := ⟨.rightParen, 1⟩) trivial rfl

theorem closable_frame (frame : Frame) : (inside frame outer).Closable := by
  cases frame with
  | operand hole => exact closable_operand out hole
  | assignedName line mode =>
    exact (closable_operand out (.assigned line mode "x")).shift (t := ⟨.symbol "x", 1⟩)
      (show isName "x" = true by decide) rfl
  | functionHead | parametersStart =>
    exact (closable_parameters out ..).shift (t := ⟨.leftParen, 1⟩) trivial rfl
  | parameters => exact closable_parameters out ..
  | properties => exact closable_properties out ..
  | propertyName line held start =>
    obtain ⟨x, name, fresh⟩ := exists_fresh_name (held.map (·.1))
    refine (closable_operand out (.property line held x)).shift (t := ⟨.symbol x, 1⟩) name ?_
    have free : held.any (·.1 == x) = false := by
      simp only [List.any_eq_false, beq_iff_eq]
      rintro p hp rfl
      exact fresh (List.mem_map_of_mem hp)
    simp [Frame.see, Frame.takeName, free]
  | propertyEnd => exact closable_propertyEnd out ..
  | memberName => exact closable_memberName out ..
  | complete => exact closable_complete out ..

end

/-- Wherever the reader stands, all that is open can be closed. -/
theorem closable (p : Stand) : p.Closable := by
  cases p with
  | between => exact closable_between
  | inside frame outer =>
    -- from the inside out: what is behind a form is a form around it, or nothing
    induction outer generalizing frame with
    | nil =>
      refine closable_frame ?_ frame
      exact fun _ => closable_between
    | cons hole outer ih =>
      refine closable_frame ?_ frame
      exact fun whole => ih (hole.fill whole)

end Stand

open Reader

/-! Beginnings of scripts. -/

/-- Tokens spell a script if and only if the reader takes them all and no form is left open. -/
theorem spells_iff_takeAll {ts : List Token} :
    (∃ es, Spells (.exprs es) ts) ↔ Stand.between.takeAll ts = some .between := by
  constructor
  · rintro ⟨es, spells⟩
    have read := spells.readForms [] 0
    rcases taken : Stand.between.takeAll ts with _ | _ | ⟨frame, outer⟩
    · obtain ⟨as, t, bs, p, rfl, before, refused⟩ := Stand.exists_refused taken
      have more := spells.ne_eof t (by simp)
      rw [ahead_append] at read
      obtain ⟨e, _, _, -, -, failed, -⟩ := readForms_refused feeds_cursor rfl before more refused []
      cases read.symm.trans failed
    · rfl
    · obtain ⟨e, failed, -⟩ := readForms_inside feeds_cursor rfl taken []
      cases read.symm.trans failed
  · intro taken
    obtain ⟨script, read⟩ := readForms_between feeds_cursor (s := ahead ts [] 0) rfl taken []
    obtain ⟨us, es, rest, readings, head, spells, -⟩ := readForms_sound (Prod.ext read rfl)
    have readings : ts.map .ok = us.map .ok ++ rest := by simpa [ahead] using readings
    cases rest with
    | nil =>
      rw [List.append_nil, List.map_inj_right fun _ _ h => Except.ok.inj h] at readings
      exact ⟨es, readings ▸ spells⟩
    | cons r rest =>
      -- reading stops at the end only, which is not among the tokens
      have mem : r ∈ ts.map .ok := readings ▸ by simp
      obtain ⟨t, ht, rfl⟩ := List.mem_map.mp mem
      exact absurd (head _ rfl) (by simpa using Stand.ne_eof_of_takeAll taken t ht)

/-- The tokens are the beginning of a script: with some more behind them they spell one, and so are
read as one (`Script.ofText_eq_ok_iff`). -/
def Viable (ts : List Token) : Prop := ∃ us es, Spells (.exprs es) (ts ++ us)

/-- What has been begun can be completed with tokens that can be written. -/
theorem exists_completion_of_takeAll {ts : List Token} {p : Stand}
    (taken : Stand.between.takeAll ts = some p) :
    ∃ us es, (∀ t ∈ us, t.kind.Writable) ∧ Spells (.exprs es) (ts ++ us) := by
  obtain ⟨us, writable, closes⟩ := p.closable
  have all : Stand.between.takeAll (ts ++ us) = some .between := by
    rw [Stand.takeAll_append, taken]
    exact closes
  obtain ⟨es, spells⟩ := spells_iff_takeAll.mpr all
  exact ⟨us, es, writable, spells⟩

/-- Tokens are the beginning of a script if and only if the reader takes them all. -/
theorem viable_iff {ts : List Token} : Viable ts ↔ ∃ p, Stand.between.takeAll ts = some p := by
  constructor
  · rintro ⟨us, es, spells⟩
    have all := spells_iff_takeAll.mp ⟨es, spells⟩
    rw [Stand.takeAll_append] at all
    obtain ⟨p, taken, -⟩ := Option.bind_eq_some_iff.mp all
    exact ⟨p, taken⟩
  · rintro ⟨p, taken⟩
    obtain ⟨us, es, -, spells⟩ := exists_completion_of_takeAll taken
    exact ⟨us, es, spells⟩

theorem Viable.exists_completion {ts : List Token} (h : Viable ts) :
    ∃ us es, (∀ t ∈ us, t.kind.Writable) ∧ Spells (.exprs es) (ts ++ us) := by
  obtain ⟨p, taken⟩ := viable_iff.mp h
  exact exists_completion_of_takeAll taken

/-- The tokens of the text that have been taken or looked at when the reading of it ends. -/
def Seen (text : String) (ts : List Token) : Prop :=
  (Scanner.ofText text).readings =
    ts.map .ok ++ (readScript (Lookahead.ofText text)).2.scanner.readings

theorem Scanner.ne_eof_of_mem_tokens {s : Scanner} {t : Token} (h : t ∈ s.tokens) :
    t.kind ≠ .eof := by
  obtain ⟨r, -, token⟩ := List.mem_filterMap.mp h
  cases r with
  | error => cases token
  | ok t' =>
    simp only [Reading.token?] at token
    split at token <;> cases token
    assumption

/-- Taking what was looked at does not move the scanner. -/
theorem Lookahead.scanner_next {s s' : Lookahead} {r : Reading}
    (look : TokenSource.peek s = (r, s')) : (TokenSource.next s').2.scanner = s'.scanner := by
  cases look
  rfl

/-- Where a token is refused, it is the last that is seen. -/
theorem seen_of_refused {text : String} {ts us : List Token} {t : Token} {last : Nat} {p : Stand}
    (readings : (Scanner.ofText text).readings = (ts ++ t :: us ++ [Token.mk .eof last]).map .ok)
    (taken : Stand.between.takeAll ts = some p) (more : t.kind ≠ .eof) (refused : p.take t = none) :
    Seen text (ts ++ [t]) ∧ ∃ e, Script.ofText text = .error e ∧ ¬e.AtEnd := by
  have awaits : Awaits (.ofText text) (ahead ts (.ok t :: us.map .ok) last) := by
    simpa [Awaits, Scanner.Scans, Lookahead.ofText, ahead] using readings
  obtain ⟨e, s₁, s₂, look, ⟨-, after⟩, failed, other, left⟩ :=
    readForms_refused feeds_lookahead awaits taken more refused []
  have final : (readForms [] (Lookahead.ofText text)).2.scanner.readings =
      us.map .ok ++ [.ok ⟨.eof, last⟩] := by
    rcases left with kept | taken
    · rw [kept, ← Lookahead.scanner_next look]
      exact after
    · rw [taken]
      exact after
  refine ⟨?_, e, failed, other⟩
  rw [Seen, readScript, final, readings]
  simp

/-- A text of tokens is rejected at its end if and only if its tokens are the beginning of a script.
Otherwise the last token that is seen is the first with which they are not. A beginning can always be
completed with tokens that can be written. -/
theorem rejects_at_earliest_token (text : String) (e : ReadError)
    (lexed : ∀ r ∈ (Scanner.ofText text).readings, r.isOk = true)
    (rejected : Script.ofText text = .error e) :
    (e.AtEnd ↔ Viable (Scanner.ofText text).tokens) ∧
    (¬e.AtEnd → ∃ ts t, Seen text (ts ++ [t]) ∧ Viable ts ∧ ¬Viable (ts ++ [t])) ∧
    ∀ ts, Viable ts → ∃ us es, (∀ t ∈ us, t.kind.Writable) ∧ Spells (.exprs es) (ts ++ us) := by
  obtain ⟨last, readings⟩ := Scanner.readings_eq_tokens lexed
  have awaits : Awaits (.ofText text) (ahead (Scanner.ofText text).tokens [] last) := by
    simpa [Awaits, Scanner.Scans, Lookahead.ofText, ahead] using readings
  rw [← and_assoc]
  refine ⟨?_, fun ts viable => viable.exists_completion⟩
  rcases taken : Stand.between.takeAll (Scanner.ofText text).tokens with _ | _ | ⟨frame, outer⟩
  · obtain ⟨ts, t, us, p, tokens, before, refused⟩ := Stand.exists_refused taken
    have mem : t ∈ (Scanner.ofText text).tokens := by simp [tokens]
    have more := Scanner.ne_eof_of_mem_tokens mem
    rw [tokens] at readings
    obtain ⟨seen, e', failed, other⟩ := seen_of_refused readings before more refused
    cases rejected.symm.trans failed
    have all : ¬Viable (Scanner.ofText text).tokens := by simp [viable_iff, taken]
    have earlier : Viable ts := viable_iff.mpr ⟨p, before⟩
    have wrong : ¬Viable (ts ++ [t]) := by
      simp [viable_iff, Stand.takeAll_append, before, refused]
    exact ⟨iff_of_false other all, fun _ => ⟨ts, t, seen, earlier, wrong⟩⟩
  · obtain ⟨script, read⟩ := readForms_between feeds_lookahead awaits taken []
    cases rejected.symm.trans read
  · obtain ⟨e', failed, atEnd⟩ := readForms_inside feeds_lookahead awaits taken []
    cases rejected.symm.trans failed
    exact ⟨iff_of_true atEnd (viable_iff.mpr ⟨_, taken⟩), fun other => absurd atEnd other⟩

/-- A second property of one name is wrong whatever follows, and a list of parameters that is not
closed is only unfinished. -/
theorem rejects_duplicate_and_unclosed : ∃ e f : ReadError,
    (∀ r ∈ (Scanner.ofText "(new (a 1) (a 2))").readings, r.isOk = true) ∧
    Script.ofText "(new (a 1) (a 2))" = .error e ∧ ¬e.AtEnd ∧
    (∃ ts t, Seen "(new (a 1) (a 2))" (ts ++ [t]) ∧ Viable ts ∧ ¬Viable (ts ++ [t])) ∧
    (∀ r ∈ (Scanner.ofText "(fun f (x").readings, r.isOk = true) ∧
    Script.ofText "(fun f (x" = .error f ∧ f.AtEnd ∧ Viable (Scanner.ofText "(fun f (x").tokens := by
  have lexed : ∀ r ∈ (Scanner.ofText "(new (a 1) (a 2))").readings, r.isOk = true := by
    decide +kernel
  have duplicate : Script.ofText "(new (a 1) (a 2))" = .error ⟨.duplicateProperty "a", 1⟩ := by
    with_unfolding_all rfl
  have other : ¬ReadError.AtEnd ⟨.duplicateProperty "a", 1⟩ := by simp [ReadError.AtEnd]
  have wrong := (rejects_at_earliest_token _ _ lexed duplicate).2.1 other
  have lexed' : ∀ r ∈ (Scanner.ofText "(fun f (x").readings, r.isOk = true := by decide +kernel
  have unclosed : Script.ofText "(fun f (x" = .error ⟨.unexpectedEof, 1⟩ := by
    with_unfolding_all rfl
  have atEnd : ReadError.AtEnd ⟨.unexpectedEof, 1⟩ := .inl rfl
  have viable := (rejects_at_earliest_token _ _ lexed' unclosed).1.mp atEnd
  exact ⟨_, _, lexed, duplicate, other, wrong, lexed', unclosed, atEnd, viable⟩

end Lisplet
