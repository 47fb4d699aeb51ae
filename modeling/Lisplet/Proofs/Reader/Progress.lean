import Mathlib.Logic.Function.Iterate
import Lisplet.Proofs.Reader.Acceptance
import Lisplet.Proofs.Reader.Requests
import Lisplet.Proofs.Token.Append
/-!
Reading always ends and always moves on. What it moves through are the readings that are pending: the
one that is held, if any, and those that the scanner will find before the end (`Lookahead.pending`).
None of the loops of the reader says when it stops. Cut off after more rounds than readings are
pending, they do all the same what they do when they are not (`readForm_eq_iterate`,
`readForms_eq_iterate`), so what would come after these rounds is never asked for. And since every
request for an expression takes something that is pending, as long as there is something, asking again
and again comes to the end of the text, through all errors (`reader_moves_on`).
-/
namespace Lisplet

open TokenSource

namespace Reader

/-- Taking a token leaves fewer readings before the end. -/
theorem length_next_lt {c c' : Cursor} {t : Token} (look : peek c = (.ok t, c'))
    (more : t.kind ≠ .eof) : (next c').2.readings.length < c.readings.length := by
  have falls := remaining_next_lt c
  rw [look] at falls
  exact falls (by simpa using more)

/-! The loops of the reader, round by round. -/

section
variable {σ : Type} [TokenSource σ]

/-- One round of the reading of a form; `again` does the rounds after it. -/
def formRound (again : Frame → List Hole → σ → Except ReadError Expr × σ) (frame : Frame)
    (outer : List Hole) (s : σ) : Except ReadError Expr × σ :=
  match peek s with
  | (.error e, s') => (.error (.ofScan e), if frame.looks then s' else (next s').2)
  | (.ok t, s') =>
    if t.kind = .eof then (.error ⟨frame.faultAtEnd, t.line⟩, s')
    else
      match frame.see t with
      | .shift frame => again frame outer (next s').2
      | .descend hole => again (.operand (.callee t.line)) (hole :: outer) (next s').2
      | .finish whole =>
        match outer with
        | [] => (.ok whole, (next s').2)
        | hole :: outer => again (hole.fill whole) outer (next s').2
      | .refuse e kept => (.error e, if kept then s' else (next s').2)

/-- Read one expression; `form` reads on in a form. -/
def exprBy (form : Frame → List Hole → σ → Except ReadError Expr × σ) (s : σ) :
    Except ReadError Expr × σ :=
  match peek s with
  | (.error e, s') => (.error (.ofScan e), (next s').2)
  | (.ok t, s') =>
    match t.atom? with
    | some e => (.ok e, (next s').2)
    | none =>
      match t.kind with
      | .leftParen => form (.operand (.callee t.line)) [] (next s').2
      | .eof => (.error ⟨.unexpectedEof, t.line⟩, s')
      | kind => (.error ⟨.nonExpression kind, t.line⟩, (next s').2)

/-- One round of the reading of a script, which `expr` reads an expression in; `again` does the rounds
after it. -/
def scriptRound (expr : σ → Except ReadError Expr × σ)
    (again : List Expr → σ → Except ReadError Script × σ) (held : List Expr) (s : σ) :
    Except ReadError Script × σ :=
  match peek s with
  | (.error e, s') => (.error (.ofScan e), s')
  | (.ok t, s') =>
    if t.kind = .eof then (.ok ⟨held.reverse⟩, s')
    else
      match expr s' with
      | (.ok e, s'') => again (e :: held) s''
      | (.error e, s'') => (.error e, s'')

end

section
variable {σ : Type} [TokenSource σ] {R : σ → Cursor → Prop} (alike : Alike R)
include alike

/-- The loop in a form goes on for no more rounds than there are readings before the end. -/
theorem readForm_eq_iterate {n : Nat} {s : σ} {c : Cursor} (here : R s c)
    (bound : c.readings.length < n) (after : Frame → List Hole → σ → Except ReadError Expr × σ)
    (frame : Frame) (outer : List Hole) :
    formRound^[n] after frame outer s = readForm frame outer s := by
  induction n generalizing s c frame outer with
  | zero => cases bound
  | succ n ih =>
    rw [Function.iterate_succ_apply']
    rcases look : peek s with ⟨e | t, s'⟩
    · rw [readForm_error look]
      simp only [formRound, look]
    · by_cases ended : t.kind = .eof
      · rw [readForm_end look ended]
        simp only [formRound, look, if_pos ended]
      · obtain ⟨c', look', there⟩ := alike.look here look
        have later := (alike.next there).2
        have fewer := length_next_lt look' ended
        have bound' : (next c').2.readings.length < n := by omega
        rw [readForm_token look ended]
        simp only [formRound, look, if_neg ended]
        cases frame.see t with
        | shift | descend => exact ih later bound' _ _
        | finish whole =>
          cases outer with
          | nil => rfl
          | cons hole outer => exact ih later bound' _ _
        | refuse => rfl

theorem readExpr_eq_exprBy {n : Nat} {s : σ} {c : Cursor} (here : R s c)
    (bound : c.readings.length < n) (after : Frame → List Hole → σ → Except ReadError Expr × σ) :
    exprBy (formRound^[n] after) s = readExpr s := by
  rcases look : peek s with ⟨e | t, s'⟩
  · simp only [exprBy, readExpr, look]
  · simp only [exprBy, readExpr, look]
    cases t.atom? with
    | some e => rfl
    | none =>
      cases kind : t.kind with
      | leftParen =>
        obtain ⟨c', look', there⟩ := alike.look here look
        have fewer := length_next_lt look' (by simp [kind])
        exact readForm_eq_iterate alike (alike.next there).2 (by omega) after _ _
      | rightParen | integer | string | symbol | eof => rfl

/-- The loop of a script goes on for no more rounds than there are readings before the end. -/
theorem readForms_eq_iterate {n m : Nat} {s : σ} {c : Cursor} (here : R s c)
    (bound : c.readings.length < n) (bound' : c.readings.length < m)
    (after : Frame → List Hole → σ → Except ReadError Expr × σ)
    (later : List Expr → σ → Except ReadError Script × σ) (held : List Expr) :
    (scriptRound (exprBy (formRound^[n] after)))^[m] later held s = readForms held s := by
  induction m generalizing s c held with
  | zero => cases bound'
  | succ m ih =>
    rw [Function.iterate_succ_apply']
    rcases look : peek s with ⟨e | t, s'⟩
    · rw [readForms_error look]
      simp only [scriptRound, look]
    · by_cases ended : t.kind = .eof
      · rw [readForms_end look ended]
        simp only [scriptRound, look, if_pos ended]
      · obtain ⟨c', look', there⟩ := alike.look here look
        obtain rfl : c = c' := congrArg Prod.snd look'
        have fewer : (readExpr c).2.readings.length < c.readings.length := by
          refine remaining_readExpr_lt (s := c) ?_
          rw [look']
          simpa using ended
        have there' := (readExpr_alike alike there).2
        rw [readForms_token look ended]
        simp only [scriptRound, look, if_neg ended, readExpr_eq_exprBy alike there bound after]
        rcases read : readExpr s' with ⟨e | e, s''⟩
        · rfl
        · rw [read] at there'
          exact ih there' (by omega) (by omega) _

end

/-- A request moves a cursor on, and the end stays where it is. -/
theorem exists_advance_answer (c : Cursor) (request : Request) :
    ∃ n, (answer c request).2 = c.advance n := by
  obtain ⟨-, -, n, moved⟩ := answer_alike c.alike_advance (s := c) (t := c) ⟨rfl, 0, rfl⟩ request
  exact ⟨n, moved⟩

end Reader

/-! What is pending. -/

namespace Lookahead

open Reader

/-- The readings that come before the end, with the one that is held. -/
def pending (s : Lookahead) : List Reading :=
  (s.held.toList ++ s.scanner.readings).filter fun r => !r.isEnd

theorem filter_readings {s : Scanner} {c : Cursor} (h : s.Scans c) :
    s.readings.filter (fun r => !r.isEnd) = c.readings := by
  have all : s.readings = c.readings ++ [.ok ⟨.eof, c.last⟩] := h
  have tokens : c.readings.filter (fun r => !r.isEnd) = c.readings := by
    rw [List.filter_eq_self]
    intro r mem
    rw [h.not_isEnd r mem]
    rfl
  rw [all, List.filter_append, tokens]
  simp

/-- What is pending is what a cursor at the same place has before it. -/
theorem Shows.pending_eq {s : Lookahead} {c : Cursor} (h : s.Shows c) : s.pending = c.readings := by
  rcases s with ⟨_ | r, scanner⟩
  · exact filter_readings h
  · obtain ⟨rfl, none, scans⟩ | ⟨more, rs, readings, scans⟩ := h
    · simp [pending, filter_readings scans, none]
    · simp [pending, filter_readings scans, more, readings]

variable {s : Lookahead} {c : Cursor}

theorem Shows.answer (shows : s.Shows c) (request : Request) :
    ∃ n, (Reader.answer s request).2.Shows (c.advance n) := by
  obtain ⟨n, moved⟩ := exists_advance_answer c request
  have later := (answer_alike alike_shows shows request).2
  rw [moved] at later
  exact ⟨n, later⟩

/-- Nothing that has been taken is pending again. -/
theorem Shows.pending_suffix (shows : s.Shows c) (request : Request) :
    (Reader.answer s request).2.pending <:+ s.pending := by
  obtain ⟨n, later⟩ := shows.answer request
  rw [later.pending_eq, shows.pending_eq]
  exact List.drop_suffix n c.readings

/-- As long as something is pending, an expression takes some of it. -/
theorem Shows.pending_readExpr_lt (shows : s.Shows c) (more : s.pending ≠ []) :
    (readExpr s).2.pending.length < s.pending.length := by
  have later : (readExpr s).2.Shows (readExpr c).2 := (readExpr_alike alike_shows shows).2
  have tokens : ∀ r ∈ s.pending, r.isEnd = false := by
    intro r mem
    simpa using (List.mem_filter.mp mem).2
  rw [shows.pending_eq] at more tokens ⊢
  rw [later.pending_eq]
  obtain ⟨readings, last⟩ := c
  cases readings with
  | nil => exact absurd rfl more
  | cons r rs =>
    have first : r.isEnd = false := tokens r List.mem_cons_self
    exact remaining_readExpr_lt (s := Cursor.mk (r :: rs) last) first

/-- When nothing is pending, there is no expression any more. -/
theorem Shows.readExpr_end (shows : s.Shows c) (none : s.pending = []) :
    (readExpr s).1 = .error ⟨.unexpectedEof, c.last⟩ := by
  rw [shows.pending_eq] at none
  have look : (TokenSource.peek s).1 = .ok ⟨.eof, c.last⟩ := by
    obtain ⟨readings, last⟩ := c
    cases none
    exact shows.peek.1
  have look : TokenSource.peek s = (.ok ⟨.eof, c.last⟩, (TokenSource.peek s).2) := Prod.ext look rfl
  rw [readExpr, look]
  rfl

/-- Asking for expressions again and again comes to the end. -/
theorem Shows.readExpr_after {n : Nat} (shows : s.Shows c) (bound : s.pending.length ≤ n) :
    (readExpr (answerAll (List.replicate n .expr) s).2).1 = .error ⟨.unexpectedEof, c.last⟩ := by
  induction n generalizing s c with
  | zero => exact shows.readExpr_end (List.eq_nil_of_length_eq_zero (Nat.le_zero.mp bound))
  | succ n ih =>
    obtain ⟨k, later⟩ := shows.answer .expr
    have fewer : (readExpr s).2.pending.length ≤ n := by
      by_cases none : s.pending = []
      · have suffix : (readExpr s).2.pending <:+ s.pending := shows.pending_suffix .expr
        have shorter := suffix.length_le
        rw [none] at shorter
        exact Nat.le_trans shorter (Nat.zero_le n)
      · have taken := shows.pending_readExpr_lt none
        omega
    exact ih (c := c.advance k) later fewer

end Lookahead

open Reader

/-- Whatever has been asked before, and whether or not it has failed, the reader ends and moves on.
Cut off after more rounds than readings are pending, its loops give the same results, whatever is put
in place of the further rounds. No request brings back what has been taken. A request for an
expression takes at least one reading that is pending, or it fails at the end of the text, where
nothing is pending. So after as many such requests as readings are pending, which are at most those of
the text before the end, the next one fails there. -/
theorem reader_moves_on (text : String) (requests : List Request) :
    let s := (answerAll requests (Lookahead.ofText text)).2
    let ended : ReadError := ⟨.unexpectedEof, 1 + text.toList.count '\n'⟩
    (∀ n, s.pending.length < n → ∀ after later,
      exprBy (formRound^[n] after) s = readExpr s ∧
        (scriptRound (exprBy (formRound^[n] after)))^[n] later [] s = readScript s) ∧
    s.pending <:+ (Scanner.ofText text).readings.filter (fun r => !r.isEnd) ∧
    (∀ request, (answer s request).2.pending <:+ s.pending) ∧
    (s.pending ≠ [] → (readExpr s).2.pending.length < s.pending.length) ∧
    (s.pending = [] → (readExpr s).1 = .error ended) ∧
    ∀ n, s.pending.length ≤ n →
      (readExpr (answerAll (List.replicate n .expr) s).2).1 = .error ended := by
  intro s ended
  obtain ⟨-, n, -, shows⟩ := Lookahead.shows_answerAll text requests
  have last : ((Scanner.ofText text).cursor.advance n).last = 1 + text.toList.count '\n' :=
    (Scanner.scans_cursor (Scanner.ofText text)).last_eq
  have pending := shows.pending_eq
  refine ⟨?_, ?_, shows.pending_suffix, shows.pending_readExpr_lt, ?_, ?_⟩
  · intro m bound after later
    rw [pending] at bound
    exact ⟨readExpr_eq_exprBy Lookahead.alike_shows shows bound after,
      readForms_eq_iterate Lookahead.alike_shows shows bound bound after later []⟩
  · rw [pending, Lookahead.filter_readings (Scanner.scans_cursor _)]
    exact List.drop_suffix n _
  · intro none
    rw [shows.readExpr_end none, last]
  · intro m bound
    rw [shows.readExpr_after bound, last]

/-- A request for a script fails at the numeral, which is too large, and leaves it. Five readings are
pending then. Whatever they are worth, after five requests for an expression there is only the end. -/
theorem reader_moves_on_past_errors :
    let s := (answerAll [.script] (Lookahead.ofText "(f 9223372036854775808)\nx (g")).2
    s.pending.length = 5 ∧ (readExpr s).2.pending.length < s.pending.length ∧
      (readExpr (answerAll (List.replicate 5 .expr) s).2).1 = .error ⟨.unexpectedEof, 2⟩ := by
  intro s
  have pending : s.pending.length = 5 := by decide +kernel
  obtain ⟨-, -, -, takes, -, ends⟩ := reader_moves_on "(f 9223372036854775808)\nx (g" [.script]
  have some : s.pending ≠ [] := by
    intro none
    rw [none] at pending
    cases pending
  exact ⟨pending, takes some, ends 5 (Nat.le_of_eq pending)⟩

end Lisplet
