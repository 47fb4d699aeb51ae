import Lisplet.Proofs.Token.Layout
/-!
Texts that are put behind one another, a line feed between them. A line feed ends whatever a text may
leave open at its end, an atom or a comment, but not a string. So if a text has no faulty pieces, its
tokens come first, and then all that is read of the other text (`Scans.append_feed`), only on later
lines (`Scans.later`).
-/
namespace Lisplet

/-- A line feed behind trivia does not change it, nor does what comes behind the feed. -/
theorem Trivia.append_feed {rest cs : List Char} (h : Trivia rest cs) (more : List Char) :
    Trivia (rest ++ '\n' :: more) cs := by
  induction h with
  | nil => exact .nil
  | blank hc _ ih => exact .blank hc ih
  | @comment body cs inside stops _ ih =>
    refine .comment inside ?_ ih
    rw [← List.append_assoc]
    cases h : cs ++ rest with
    | nil => simp
    | cons c _ => simpa [h] using stops

theorem IsRun.append_feed {before cs after : List Char} (run : IsRun before cs after)
    (more : List Char) : IsRun before cs (after ++ '\n' :: more) := by
  refine ⟨run.some, run.inside, run.starts, ?_⟩
  cases after with
  | nil =>
    rintro c ⟨⟩
    decide
  | cons c _ => simpa using run.ends

/-- A token means the same when there is more text behind a line feed. -/
theorem Lexes.append_feed {before after cs : List Char} {k : TokenKind}
    (h : Lexes before after cs (.ok k)) (token : k ≠ .eof) (more : List Char) :
    Lexes before (after ++ '\n' :: more) cs (.ok k) := by
  cases h with
  | leftParen => exact .leftParen
  | rightParen => exact .rightParen
  | string inside => exact .string inside
  | integer run numeral value => exact .integer (run.append_feed more) numeral value
  | symbol run word => exact .symbol (run.append_feed more) word
  | eof => exact absurd rfl token

/-- The token with its line changed. -/
def Token.mapLines (f : Nat → Nat) (t : Token) : Token := { t with line := f t.line }

def ScanError.mapLines (f : Nat → Nat) (e : ScanError) : ScanError := { e with line := f e.line }

def Reading.mapLines (f : Nat → Nat) : Reading → Reading
  | .ok t => .ok (t.mapLines f)
  | .error e => .error (e.mapLines f)

/-- The cursor over the same readings on changed lines. -/
def Cursor.mapLines (f : Nat → Nat) (c : Cursor) : Cursor :=
  ⟨c.readings.map (Reading.mapLines f), f c.last⟩

theorem Reading.mapLines_eq_ofResult (f : Nat → Nat) (r : Reading) :
    r.mapLines f = .ofResult (f r.line) r.result := by cases r <;> rfl

@[simp] theorem Reading.isEnd_mapLines (f : Nat → Nat) (r : Reading) :
    (r.mapLines f).isEnd = r.isEnd := by cases r <;> rfl

namespace Scanner

/-- The scanner with another text behind its own and a line feed between them. -/
def appendFeed (s : Scanner) (more : List Char) : Scanner := ⟨s.rest ++ '\n' :: more, s.line⟩

/-- The scanner of the same text some lines further down. -/
def later (s : Scanner) (k : Nat) : Scanner := ⟨s.rest, s.line + k⟩

/-- A look at trivia and a lexeme behind it. -/
theorem next_trivia_lexes {before after trivia lexeme : List Char} {r : Except ScanFault TokenKind}
    (gap : Trivia (lexeme ++ after) trivia) (lexes : Lexes before after lexeme r) (line : Nat) :
    next ⟨trivia ++ (lexeme ++ after), line⟩ = (.ofResult (line + trivia.count '\n') r,
      ⟨after, line + (trivia ++ lexeme).count '\n'⟩) := by
  rw [next_append gap, next_lexes lexes, List.count_append, Nat.add_assoc]

/-- A token is found whatever comes behind the text. -/
theorem next_appendFeed {s s' : Scanner} {t : Token} (look : s.next = (.ok t, s'))
    (token : t.kind ≠ .eof) (more : List Char) :
    (s.appendFeed more).next = (.ok t, s'.appendFeed more) := by
  have lexes := s.lexes_piece (edge_start _)
  have gap := s.trivia_piece.append_feed more
  obtain ⟨text, reading, line⟩ := s.cut_piece
  rw [look] at lexes gap text reading line
  rw [List.append_assoc] at gap
  have found := next_trivia_lexes gap (lexes.append_feed token more) s.line
  rw [← reading, ← line] at found
  rw [appendFeed, text, List.append_assoc, List.append_assoc]
  exact found

/-- Where the end is found, all the text is trivia, and the end is on the line after all its feeds. -/
theorem trivia_of_end {s : Scanner} {last : Nat} (look : s.next.1 = .ok ⟨.eof, last⟩) :
    Trivia [] s.rest ∧ last = s.line + s.rest.count '\n' := by
  have ended : s.next.1.isEnd = true := by rw [look]; rfl
  have gap := s.trivia_piece
  obtain ⟨text, reading, -⟩ := s.cut_piece
  obtain ⟨line, all⟩ := next_of_isEnd ended
  rw [(lexeme_piece_eq_nil_iff s).mpr ended, all] at gap text
  simp only [List.append_nil] at gap text
  rw [look] at reading
  rw [text]
  exact ⟨gap, reading⟩

/-- Where the text ends, the other one begins, on the line after. -/
theorem next_appendFeed_end {s : Scanner} {last : Nat} (look : s.next.1 = .ok ⟨.eof, last⟩)
    (more : List Char) : (s.appendFeed more).next = next ⟨more, last + 1⟩ := by
  obtain ⟨gap, line⟩ := trivia_of_end look
  have feed : Trivia more ['\n'] := .blank (by decide) .nil
  calc (s.appendFeed more).next
      = next ⟨'\n' :: more, s.line + s.rest.count '\n'⟩ := next_append (gap.append_feed more) s.line
    _ = next ⟨['\n'] ++ more, last⟩ := by rw [← line]; rfl
    _ = next ⟨more, last + 1⟩ := next_append feed last

/-- The same is found some lines further down. -/
theorem next_later (s : Scanner) (k : Nat) :
    (s.later k).next = (s.next.1.mapLines (· + k), s.next.2.later k) := by
  obtain ⟨text, reading, line⟩ := s.cut_piece
  have found := next_trivia_lexes s.trivia_piece (s.lexes_piece (edge_start _)) (s.line + k)
  rw [← text, Nat.add_right_comm, ← reading, Nat.add_right_comm, ← line] at found
  rw [Reading.mapLines_eq_ofResult]
  exact found

/-- The end is on the line after all the feeds. -/
theorem Scans.last_eq {s : Scanner} {c : Cursor} (h : s.Scans c) :
    c.last = s.line + s.rest.count '\n' := by
  rcases c with ⟨rs, last⟩
  induction rs generalizing s with
  | nil =>
    obtain ⟨look, -⟩ := h.next_nil
    exact (trivia_of_end look).2
  | cons r rs ih =>
    obtain ⟨-, -, tail⟩ := h.next_cons
    obtain ⟨text, -, line⟩ := s.cut_piece
    rw [ih tail, line, text]
    simp only [List.count_append]
    omega

theorem Scans.later {s : Scanner} {c : Cursor} (h : s.Scans c) (k : Nat) :
    (s.later k).Scans (c.mapLines (· + k)) := by
  rcases c with ⟨rs, last⟩
  induction rs generalizing s with
  | nil =>
    obtain ⟨found, -⟩ := h.next_nil
    exact .nil (by rw [next_later, found]; rfl)
  | cons r rs ih =>
    obtain ⟨rfl, more, tail⟩ := h.next_cons
    refine .cons (by rw [next_later]) (by simpa using more) ?_
    rw [next_later]
    exact ih tail

/-- The tokens of a text come first, and then all that is read of the other text. -/
theorem Scans.append_feed {s : Scanner} {ts : List Token} {last : Nat} {more : List Char}
    {c : Cursor} (first : s.Scans ⟨ts.map .ok, last⟩)
    (second : Scans ⟨more, last + 1⟩ c) :
    (s.appendFeed more).Scans ⟨ts.map .ok ++ c.readings, c.last⟩ := by
  induction ts generalizing s with
  | nil =>
    obtain ⟨look, -⟩ := first.next_nil
    have same := next_appendFeed_end look more
    rcases c with ⟨_ | ⟨r, rs⟩, last'⟩
    · obtain ⟨found, -⟩ := second.next_nil
      exact .nil (by rw [same, found])
    · obtain ⟨found, token, tail⟩ := second.next_cons
      exact .cons (by rw [same, found]) token (by rw [same]; exact tail)
  | cons t ts ih =>
    obtain ⟨look, token, tail⟩ := first.next_cons
    have found := next_appendFeed (Prod.ext look rfl) (by simpa using token) more
    refine .cons (by rw [found]) token ?_
    rw [found]
    exact ih tail

end Scanner
end Lisplet
