import Lisplet.Reader.Frame
import Lisplet.Reader.Source
/-!
From tokens to expressions. The reader keeps the innermost open form and, inside out, the holes
that wait for it and for the forms around it; each token is shown to the innermost form. Reading
stops at the first error, and what has been taken from the source by then stays taken, so that one
can read on after an error.
-/
namespace Lisplet
namespace Reader

variable {σ : Type} [TokenSource σ]

open TokenSource

/-- Read on in the innermost open form until the outermost one is closed. -/
def readForm (frame : Frame) (outer : List Hole) (s : σ) : Except ReadError Expr × σ :=
  match _look : peek s with
  | (.error e, s') => (.error (.ofScan e), if frame.looks then s' else (next s').2)
  | (.ok t, s') =>
    if _ended : t.kind = .eof then (.error ⟨frame.faultAtEnd, t.line⟩, s')
    else
      match frame.see t with
      | .shift frame => readForm frame outer (next s').2
      | .descend hole => readForm (.operand (.callee t.line)) (hole :: outer) (next s').2
      | .finish whole =>
        match outer with
        | [] => (.ok whole, (next s').2)
        | hole :: outer => readForm (hole.fill whole) outer (next s').2
      | .refuse e kept => (.error e, if kept then s' else (next s').2)
termination_by remaining s
decreasing_by
  all_goals
    have h := remaining_next_lt s
    simp only [_look, Reading.isEnd_ok, beq_eq_false_iff_ne, ne_eq] at h
    exact h _ended

/-- Read one expression. -/
def readExpr (s : σ) : Except ReadError Expr × σ :=
  match peek s with
  | (.error e, s') => (.error (.ofScan e), (next s').2)
  | (.ok t, s') =>
    match t.atom? with
    | some e => (.ok e, (next s').2)
    | none =>
      match t.kind with
      | .leftParen => readForm (.operand (.callee t.line)) [] (next s').2
      | .eof => (.error ⟨.unexpectedEof, t.line⟩, s')
      | kind => (.error ⟨.nonExpression kind, t.line⟩, (next s').2)

theorem remaining_readForm_le (frame : Frame) (outer : List Hole) (s : σ) :
    remaining (readForm frame outer s).2 ≤ remaining s := by
  fun_induction readForm frame outer s <;>
    grind [remaining_peek_le, remaining_next_lt, Reading.isEnd_ok, Reading.isEnd_error]

/-- Reading an expression consumes something, unless the text is at its end. -/
theorem remaining_readExpr_lt {s : σ} (h : (peek s).1.isEnd = false) :
    remaining (readExpr s).2 < remaining s := by
  have hlt := remaining_next_lt s h
  unfold readExpr
  split
  · next heq => simpa [heq] using hlt
  · next t s' heq =>
    simp only [heq] at h hlt
    split
    · exact hlt
    · split
      · exact Nat.lt_of_le_of_lt (remaining_readForm_le _ _ _) hlt
      · next hk => simp [hk] at h
      · exact hlt

/-- Read expressions up to the end of the text; `held` are those read before, last one first. -/
def readForms (held : List Expr) (s : σ) : Except ReadError Script × σ :=
  match _look : peek s with
  | (.error e, s') => (.error (.ofScan e), s')
  | (.ok t, s') =>
    if _ended : t.kind = .eof then (.ok ⟨held.reverse⟩, s')
    else
      match _read : readExpr s' with
      | (.ok e, s'') => readForms (e :: held) s''
      | (.error e, s'') => (.error e, s'')
termination_by remaining s
decreasing_by
  have hle := remaining_peek_le s
  have hpeek := peek_peek s
  simp only [_look] at hle hpeek
  have hlt : remaining (readExpr s').2 < remaining s' :=
    remaining_readExpr_lt (by simp [hpeek, _ended])
  simp only [_read] at hlt
  exact Nat.lt_of_lt_of_le hlt hle

/-- Read a script: everything up to the end of the text. -/
def readScript (s : σ) : Except ReadError Script × σ := readForms [] s

end Reader

/-- The script that a text is. -/
def Script.ofText (text : String) : Except ReadError Script :=
  (Reader.readScript (Lookahead.ofText text)).1

end Lisplet
