import Lisplet.Proofs.Reader.Cursor
import Lisplet.Proofs.Token.Piece
/-!
One reader and many requests. A reader can be asked for expressions and for scripts in any order, and
asked again after it has failed; each request finds the source as the one before it has left it.

Between the reader and the scanner is the lookahead, which may hold a reading. It cannot be told that it
does: whatever is done to the source, and whatever has been asked for before, a look or a read gets the
reading after those that were taken, as from a list of all readings of the text (`lookahead_unseen`).
-/
namespace Lisplet

open TokenSource

/-- The cursor before all that the scanner will read. -/
def Scanner.cursor (s : Scanner) : Cursor :=
  ⟨s.readings.dropLast, (s.readings.getLast s.readings_ne_nil).line⟩

theorem Scanner.scans_cursor (s : Scanner) : s.Scans s.cursor := by
  obtain ⟨⟨rs, last⟩, h⟩ := s.exists_scans
  have readings : s.readings = rs ++ [.ok ⟨.eof, last⟩] := h
  simp [Scans, cursor, readings, Reading.line]

/-- What can be done to a source. -/
inductive Access where
  | look
  | take
  deriving DecidableEq, Repr

/-- The readings that a source delivers, one for each access, and what is left of the source. -/
def TokenSource.deliver {σ : Type} [TokenSource σ] : List Access → σ → List Reading × σ
  | [], s => ([], s)
  | .look :: rest, s =>
    let (rs, s') := deliver rest (peek s).2
    ((peek s).1 :: rs, s')
  | .take :: rest, s =>
    let (rs, s') := deliver rest (next s).2
    ((next s).1 :: rs, s')

namespace Cursor

/-- The reading behind the first `n`; once there are no more, it is the end. -/
def nth (c : Cursor) (n : Nat) : Reading := c.readings.getD n (.ok ⟨.eof, c.last⟩)

/-- The cursor when `n` readings have been taken. -/
def advance (c : Cursor) (n : Nat) : Cursor := ⟨c.readings.drop n, c.last⟩

/-- What accesses are to get when `n` readings have been taken: a look gets the next reading and
leaves it there, and only a read passes it. -/
def due (c : Cursor) : Nat → List Access → List Reading
  | _, [] => []
  | n, .look :: rest => c.nth n :: c.due n rest
  | n, .take :: rest => c.nth n :: c.due (n + 1) rest

theorem next_advance (c : Cursor) (n : Nat) :
    (c.advance n).next = (c.nth n, c.advance (n + 1)) := by
  rcases c with ⟨readings, last⟩
  have later : readings.drop (n + 1) = (readings.drop n).tail := by rw [List.tail_drop]
  have now : readings.getD n (.ok ⟨.eof, last⟩) = (readings.drop n).head?.getD (.ok ⟨.eof, last⟩) := by
    rw [List.head?_drop, List.getD_eq_getElem?_getD]
  simp only [advance, nth, now, later]
  cases readings.drop n <;> rfl

/-- Looking at a cursor leaves it where it is, and taking from it is one step on. -/
theorem alike_advance (c : Cursor) :
    Alike fun a b : Cursor => a = b ∧ ∃ n, a = c.advance n where
  peek := by
    rintro _ _ ⟨rfl, n, rfl⟩
    exact ⟨rfl, rfl, n, rfl⟩
  next := by
    rintro _ _ ⟨rfl, n, rfl⟩
    exact ⟨rfl, rfl, n + 1, congrArg Prod.snd (c.next_advance n)⟩

end Cursor

namespace Lookahead

/-- Whatever is done to the lookahead, it delivers what is due when `n` readings have been taken. -/
def StandsAt (s : Lookahead) (c : Cursor) (n : Nat) : Prop :=
  ∀ accesses, (deliver accesses s).1 = c.due n accesses

theorem Shows.standsAt {s : Lookahead} {c : Cursor} {n : Nat} (h : s.Shows (c.advance n)) :
    s.StandsAt c n := by
  intro accesses
  induction accesses generalizing s n with
  | nil => rfl
  | cons access rest ih =>
    cases access with
    | look =>
      obtain ⟨reading, shows⟩ := h.peek
      rw [c.next_advance] at reading
      exact List.cons_eq_cons.mpr ⟨reading, ih shows⟩
    | take =>
      obtain ⟨reading, shows⟩ := h.next
      rw [c.next_advance] at reading shows
      exact List.cons_eq_cons.mpr ⟨reading, ih shows⟩

end Lookahead

namespace Reader

/-- What can be asked of a reader: an expression, or all that is left as a script. -/
inductive Request where
  | expr
  | script
  deriving DecidableEq, Repr

/-- What a request gives. -/
inductive Answer where
  | expr (result : Except ReadError Expr)
  | script (result : Except ReadError Script)

section
variable {σ τ : Type} [TokenSource σ] [TokenSource τ]

def answer (s : σ) : Request → Answer × σ
  | .expr => (.expr (readExpr s).1, (readExpr s).2)
  | .script => (.script (readScript s).1, (readScript s).2)

/-- Answer the requests in order, whether or not those before have failed. -/
def answerAll : List Request → σ → List Answer × σ
  | [], s => ([], s)
  | request :: rest, s =>
    let (answers, s') := answerAll rest (answer s request).2
    ((answer s request).1 :: answers, s')

theorem answer_alike {R : σ → τ → Prop} (h : Alike R) {s : σ} {t : τ} (hst : R s t)
    (request : Request) : Same R (answer s request) (answer t request) := by
  cases request with
  | expr =>
    obtain ⟨results, later⟩ := readExpr_alike h hst
    exact ⟨congrArg Answer.expr results, later⟩
  | script =>
    obtain ⟨results, later⟩ := readForms_alike h [] hst
    exact ⟨congrArg Answer.script results, later⟩

/-- Sources that are alike answer every sequence of requests alike. -/
theorem answerAll_alike {R : σ → τ → Prop} (h : Alike R) (requests : List Request) {s : σ} {t : τ}
    (hst : R s t) : Same R (answerAll requests s) (answerAll requests t) := by
  induction requests generalizing s t with
  | nil => exact ⟨rfl, hst⟩
  | cons request rest ih =>
    obtain ⟨first, later⟩ := answer_alike h hst request
    obtain ⟨others, last⟩ := ih later
    exact ⟨List.cons_eq_cons.mpr ⟨first, others⟩, last⟩

/-- An error that comes next is what is answered to any request. A request for an expression takes it,
and one for a script leaves it where it is. -/
theorem answer_of_error {s s' : σ} {e : ScanError} (look : peek s = (.error e, s')) :
    readExpr s = (.error (.ofScan e), (next s').2) ∧ readScript s = (.error (.ofScan e), s') :=
  ⟨by simp only [readExpr, look], readForms_error look []⟩

end
end Reader

open Reader

/-- The lookahead gives the answers that the cursor gives to the same requests, and then it is where the
cursor is, which has taken some number of readings. -/
theorem Lookahead.shows_answerAll (text : String) (requests : List Request) :
    (answerAll requests (Lookahead.ofText text)).1 =
      (answerAll requests (Scanner.ofText text).cursor).1 ∧
    ∃ n, (answerAll requests (Scanner.ofText text).cursor).2 =
        (Scanner.ofText text).cursor.advance n ∧
      (answerAll requests (Lookahead.ofText text)).2.Shows
        ((Scanner.ofText text).cursor.advance n) := by
  have started : (Lookahead.ofText text).Shows (Scanner.ofText text).cursor :=
    (Scanner.ofText text).scans_cursor
  obtain ⟨answers, shows⟩ := answerAll_alike alike_shows requests started
  obtain ⟨-, -, n, moved⟩ := answerAll_alike (Scanner.ofText text).cursor.alike_advance requests
    (s := (Scanner.ofText text).cursor) (t := (Scanner.ofText text).cursor) ⟨rfl, 0, rfl⟩
  rw [moved] at shows
  exact ⟨answers, n, moved, shows⟩

/-- The lookahead is never seen. Every sequence of requests is answered as it is by a cursor over the
list of all readings of the text. Behind it the cursor has taken some number of readings, and every look
or read that follows, in whatever order, gets the reading behind those that were taken until then. So
an error that has been looked at is delivered again, by every request up to the first that takes it. -/
theorem lookahead_unseen (text : String) (requests : List Request) :
    (answerAll requests (Lookahead.ofText text)).1 =
      (answerAll requests (Scanner.ofText text).cursor).1 ∧
    ∃ n, (answerAll requests (Scanner.ofText text).cursor).2 =
        (Scanner.ofText text).cursor.advance n ∧
      (answerAll requests (Lookahead.ofText text)).2.StandsAt (Scanner.ofText text).cursor n ∧
      ∀ e, (Scanner.ofText text).cursor.nth n = .error e →
        (∃ s, readExpr (answerAll requests (Lookahead.ofText text)).2 = (.error (.ofScan e), s) ∧
          s.StandsAt (Scanner.ofText text).cursor (n + 1)) ∧
        ∃ s, readScript (answerAll requests (Lookahead.ofText text)).2 = (.error (.ofScan e), s) ∧
          s.StandsAt (Scanner.ofText text).cursor n := by
  obtain ⟨answers, n, moved, shows⟩ := Lookahead.shows_answerAll text requests
  refine ⟨answers, n, moved, shows.standsAt, ?_⟩
  intro e here
  obtain ⟨reading, held⟩ := shows.peek
  have taken := held.next.2
  rw [Cursor.next_advance] at reading taken
  obtain ⟨expr, script⟩ := answer_of_error (Prod.ext (reading.trans here) rfl)
  exact ⟨⟨_, expr, taken.standsAt⟩, ⟨_, script, held.standsAt⟩⟩

/-- A numeral that is too large is looked at inside of a form. The request for a script fails there and
leaves it, the request for an expression fails on it once more and takes it, and then the closing
parenthesis comes. -/
theorem lookahead_unseen_numeral : ∃ n e s,
    (answerAll [.script] (Lookahead.ofText "(f 9223372036854775808) x")).1 =
      [.script (.error (.ofScan e))] ∧
    (Scanner.ofText "(f 9223372036854775808) x").cursor.nth n = .error e ∧
    readExpr (answerAll [.script] (Lookahead.ofText "(f 9223372036854775808) x")).2 =
      (.error (.ofScan e), s) ∧
    s.StandsAt (Scanner.ofText "(f 9223372036854775808) x").cursor (n + 1) ∧
    (answerAll [.script, .expr, .expr, .script]
        (Lookahead.ofText "(f 9223372036854775808) x")).1 =
      [.script (.error (.ofScan e)), .expr (.error (.ofScan e)),
        .expr (.error ⟨.nonExpression .rightParen, 1⟩), .script (.ok ⟨[.access 1 "x"]⟩)] := by
  obtain ⟨-, n, moved, -, again⟩ :=
    lookahead_unseen "(f 9223372036854775808) x" [.script]
  have here : (Scanner.ofText "(f 9223372036854775808) x").cursor.nth n =
      .error ⟨.integerOutOfRange "9223372036854775808", 1⟩ := by
    have next := congrArg (fun c : Cursor => c.next.1) moved
    rw [Cursor.next_advance] at next
    refine next.symm.trans ?_
    with_unfolding_all rfl
  obtain ⟨⟨s, taken, stands⟩, -⟩ := again _ here
  exact ⟨n, _, s, by with_unfolding_all rfl, here, taken, stands, by with_unfolding_all rfl⟩

end Lisplet
