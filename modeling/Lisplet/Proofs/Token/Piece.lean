import Lisplet.Proofs.Reader.Cursor
import Lisplet.Proofs.Token.Lexeme
import Lisplet.Proofs.Token.Trivia
/-!
The pieces of a text. Each look of the scanner cuts its text: blanks and comments, then the characters
of the token or of the faulty piece, then the rest (`Cut`, `exists_cut`), and it counts the line feeds
that it passes over. So one look after the other cuts the whole text into pieces (`join_pieces`), and
what every look keeps holds after any number of looks (`after_keeps`).
-/
namespace Lisplet

/-- The line that the reading is on. -/
def Reading.line : Reading → Nat
  | .ok t => t.line
  | .error e => e.line

@[simp] theorem Reading.line_ofResult (line : Nat) (r : Except ScanFault TokenKind) :
    (ofResult line r).line = line := by cases r <;> rfl

namespace Scanner

/-- The next look cuts the text into what it skips, the lexeme and the rest. -/
structure Cut (s : Scanner) (trivia lexeme : List Char) : Prop where
  text : s.rest = trivia ++ (lexeme ++ s.next.2.rest)
  reading : s.next.1.line = s.line + trivia.count '\n'
  line : s.next.2.line = s.line + (trivia ++ lexeme).count '\n'

end Scanner

/-- What one look of a scanner passes over, and what it gives for it. -/
structure Piece where
  trivia : List Char
  lexeme : List Char
  reading : Reading
  deriving Repr

namespace Piece

def chars (p : Piece) : List Char := p.trivia ++ p.lexeme

/-- The characters of the pieces, one piece after the other. -/
def join (ps : List Piece) : List Char := ps.flatMap chars

@[simp] theorem join_nil : join [] = [] := rfl
@[simp] theorem join_cons (p : Piece) (ps : List Piece) : join (p :: ps) = p.chars ++ join ps := rfl
@[simp] theorem join_append (ps qs : List Piece) : join (ps ++ qs) = join ps ++ join qs :=
  List.flatMap_append

end Piece

namespace Scanner

/-- The characters that were taken when only `rest` is left of `cs`. -/
def taken (cs rest : List Char) : List Char := cs.take (cs.length - rest.length)

theorem taken_eq {cs front rest : List Char} (h : cs = front ++ rest) : taken cs rest = front := by
  simp [taken, h]

/-- The scanner right before the lexeme of its next look. -/
def atLexeme (s : Scanner) : Scanner := skip false s.line s.rest

/-- The piece of the next look. -/
def piece (s : Scanner) : Piece where
  trivia := taken s.rest s.atLexeme.rest
  lexeme := taken s.atLexeme.rest s.next.2.rest
  reading := s.next.1

/-- All pieces of the text, the last one being that of the end. -/
def pieces (s : Scanner) : List Piece :=
  if _ended : s.next.1.isEnd then [s.piece] else s.piece :: pieces s.next.2
termination_by s.rest.length
decreasing_by exact rest_next_lt (by simpa using _ended)

/-- A look first skips trivia. -/
theorem skips_trivia (s : Scanner) : s.rest = s.piece.trivia ++ s.atLexeme.rest ∧
    Trivia s.atLexeme.rest s.piece.trivia ∧
    s.atLexeme.line = s.line + s.piece.trivia.count '\n' := by
  obtain ⟨trivia, text, trivial, line⟩ := exists_trivia false s.line s.rest
  have same : s.piece.trivia = trivia := taken_eq text
  rw [same]
  exact ⟨text, trivial, line⟩

/-- Then it finds what the lexeme means and moves past the lexeme. -/
theorem exists_look (s : Scanner) {before : List Char} (edge : Edge before s.atLexeme.rest) :
    ∃ lexeme after r, s.atLexeme.rest = lexeme ++ after ∧ Lexes before after lexeme r ∧
      s.next = (.ofResult s.atLexeme.line r, ⟨after, s.atLexeme.line + lexeme.count '\n'⟩) := by
  rcases skipped : skip false s.line s.rest with ⟨_ | ⟨c, cs⟩, l⟩
  · rw [next, atLexeme, skipped]
    exact ⟨[], [], _, rfl, .eof rfl, rfl⟩
  · obtain ⟨hb, hs⟩ := head_skip (by rw [skipped])
    rw [atLexeme, skipped] at edge
    obtain ⟨lexeme, after, r, text, lexes⟩ := exists_lexes hb hs edge
    have look := next_lexes lexes l
    rw [← text, next_start hb hs] at look
    rw [next, atLexeme, skipped]
    exact ⟨lexeme, after, r, text, lexes, look⟩

/-- The lexeme of a piece means what is read, wherever no run of characters goes on into it. -/
theorem lexes_piece (s : Scanner) {before : List Char} (edge : Edge before s.atLexeme.rest) :
    Lexes before s.next.2.rest s.piece.lexeme s.next.1.result := by
  obtain ⟨lexeme, after, r, text, lexes, look⟩ := s.exists_look edge
  have same : s.piece.lexeme = lexeme := by
    rw [piece, look]
    exact taken_eq text
  rw [same, look, Reading.result_ofResult]
  exact lexes

theorem cut_piece (s : Scanner) : s.Cut s.piece.trivia s.piece.lexeme := by
  obtain ⟨text, -, line⟩ := s.skips_trivia
  obtain ⟨lexeme, after, r, rest, -, look⟩ := s.exists_look (edge_start _)
  have same : s.piece.lexeme = lexeme := by
    rw [piece, look]
    exact taken_eq rest
  rw [same]
  refine ⟨?_, ?_, ?_⟩
  · rw [look, ← rest]
    exact text
  · rw [look, Reading.line_ofResult]
    exact line
  · rw [look, List.count_append, ← Nat.add_assoc, ← line]

/-- What comes before the lexeme of a piece is trivia. -/
theorem trivia_piece (s : Scanner) : Trivia (s.piece.lexeme ++ s.next.2.rest) s.piece.trivia := by
  obtain ⟨text, trivial, -⟩ := s.skips_trivia
  have rest : s.atLexeme.rest = s.piece.lexeme ++ s.next.2.rest :=
    List.append_cancel_left (text.symm.trans s.cut_piece.text)
  rw [← rest]
  exact trivial

/-- Only the piece of the end has no lexeme. -/
theorem lexeme_piece_eq_nil_iff (s : Scanner) :
    s.piece.lexeme = [] ↔ s.next.1.isEnd = true := by
  rw [(s.lexes_piece (edge_start _)).eq_nil_iff]
  cases s.next.1 with
  | ok t => simp [Reading.result]
  | error e => simp [Reading.result]

/-- But for the end of the text there is a lexeme, and it does not begin with a blank. -/
theorem exists_lexeme_piece {s : Scanner} (more : s.next.1.isEnd = false) :
    ∃ c cs, s.piece.lexeme = c :: cs ∧ isBlank c = false := by
  have lexes := s.lexes_piece (edge_start _)
  cases lexeme : s.piece.lexeme with
  | nil =>
    rw [s.lexeme_piece_eq_nil_iff.mp lexeme] at more
    cases more
  | cons c cs =>
    rw [lexeme] at lexes
    exact ⟨c, cs, rfl, lexes.isBlank_head⟩

/-- What a scanner finds can be written. -/
theorem writable_of_next {s s' : Scanner} {t : Token} (h : s.next = (.ok t, s'))
    (more : t.kind ≠ .eof) : t.kind.Writable := by
  have lexes := s.lexes_piece (edge_start _)
  rw [h] at lexes
  exact lexes.writable more

/-- A look takes its piece off the text. -/
theorem rest_eq_chars (s : Scanner) : s.rest = s.piece.chars ++ s.next.2.rest := by
  rw [Piece.chars, List.append_assoc]
  exact s.cut_piece.text

theorem pieces_of_isEnd {s : Scanner} (h : s.next.1.isEnd = true) : s.pieces = [s.piece] := by
  rw [pieces]
  simp [h]

theorem pieces_of_not_isEnd {s : Scanner} (h : s.next.1.isEnd = false) :
    s.pieces = s.piece :: s.next.2.pieces := by
  rw [pieces]
  simp [h]

theorem map_reading_pieces (s : Scanner) : s.pieces.map (·.reading) = s.readings := by
  fun_induction readings s with
  | case1 s ended =>
    rw [pieces_of_isEnd ended]
    rfl
  | case2 s more ih =>
    rw [pieces_of_not_isEnd (by simpa using more), List.map_cons, ih]
    rfl

/-- The pieces make up the text. -/
theorem join_pieces (s : Scanner) : Piece.join s.pieces = s.rest := by
  fun_induction pieces s with
  | case1 s ended =>
    obtain ⟨line, last⟩ := next_of_isEnd ended
    have text := s.rest_eq_chars
    rw [last, List.append_nil] at text
    rw [text, Piece.join_cons, Piece.join_nil, List.append_nil]
  | case2 s _ ih => rw [Piece.join_cons, ih, ← rest_eq_chars]

/-- The scanner after some looks. -/
def after : Nat → Scanner → Scanner
  | 0, s => s
  | n + 1, s => after n s.next.2

/-- The characters that some looks pass over. -/
def passed : Nat → Scanner → List Char
  | 0, _ => []
  | n + 1, s => s.piece.chars ++ passed n s.next.2

/-- What every look keeps is kept by any number of looks. The invariant is about the characters that
have been passed over and the scanner behind them. -/
theorem after_keeps (P : List Char → Scanner → Prop)
    (step : ∀ before s, P before s → P (before ++ s.piece.chars) s.next.2) (n : Nat)
    (before : List Char) (s : Scanner) (start : P before s) :
    P (before ++ s.passed n) (s.after n) := by
  induction n generalizing before s with
  | zero => simpa [passed, after] using start
  | succ n ih => simpa [passed, after] using ih _ _ (step before s start)

/-- The text, as any number of looks cut it. -/
theorem rest_eq_passed (s : Scanner) (n : Nat) : s.rest = s.passed n ++ (s.after n).rest := by
  refine after_keeps (fun before s' => s.rest = before ++ s'.rest) ?_ n [] s rfl
  intro before s' text
  rw [text, s'.rest_eq_chars, List.append_assoc]

/-- The scanner's line is that after the feeds that it has passed over. -/
theorem line_after (s : Scanner) (n : Nat) :
    (s.after n).line = s.line + (s.passed n).count '\n' := by
  refine after_keeps (fun before s' => s'.line = s.line + before.count '\n') ?_ n [] s rfl
  intro before s' line
  have passed : s'.next.2.line = s'.line + s'.piece.chars.count '\n' := s'.cut_piece.line
  rw [passed, line, List.count_append, Nat.add_assoc]

/-- The pieces of the text are those of one look after the other. -/
theorem piece_after {s : Scanner} {front back : List Piece} {p : Piece}
    (h : s.pieces = front ++ p :: back) : p = (s.after front.length).piece ∧
      Piece.join front = s.passed front.length ∧
      Piece.join back = (s.after front.length).next.2.rest := by
  induction front generalizing s with
  | nil =>
    have text := s.join_pieces
    rw [h, List.nil_append, Piece.join_cons, s.rest_eq_chars] at text
    have first : p = s.piece := by
      rw [pieces] at h
      split at h <;> exact (List.cons.inj h).1.symm
    subst first
    exact ⟨rfl, rfl, List.append_cancel_left text⟩
  | cons q front ih =>
    cases ended : s.next.1.isEnd with
    | true =>
      rw [pieces_of_isEnd ended] at h
      simp at h
    | false =>
      rw [pieces_of_not_isEnd ended] at h
      obtain ⟨rfl, later⟩ := List.cons.inj h
      obtain ⟨hp, hfront, hback⟩ := ih later
      exact ⟨hp, congrArg (s.piece.chars ++ ·) hfront, hback⟩

end Scanner
end Lisplet
