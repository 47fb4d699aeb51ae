import Lisplet.Proofs.Text.Utf8
import Lisplet.Proofs.Token.Piece
/-!
The scanner cuts a text without loss. Its pieces make up the text; between the lexemes there is
nothing but trivia; and what is read at a lexeme is the one meaning that the lexeme has where it
stands. A run of characters is never cut in two (`edge_after`), and in bytes the cuts are between
whole characters (`isSlice_of_toList`).
-/
namespace Lisplet

/-- Trivia keeps apart what comes before it from what comes after it. -/
theorem Trivia.edge {before rest cs : List Char} (h : Trivia rest cs)
    (start : ∀ c ∈ rest.head?, isBlank c = false) (outside : Edge before (cs ++ rest)) :
    Edge (before ++ cs) rest := by
  cases rest with
  | nil => exact .inr (by simp)
  | cons c rest =>
    by_cases none : cs = []
    · subst none
      simpa using outside
    · refine .inl ?_
      have last : (before ++ cs).getLast? = cs.getLast? := by
        rw [List.getLast?_append, List.getLast?_eq_some_getLast none, Option.some_or]
      rw [last]
      intro d hd
      have blank := h.isBlank_of_mem_getLast? (Scanner.ne_feed (start c rfl)) d hd
      simp [Scanner.isDelimiter, blank]

namespace Scanner

theorem edge_atLexeme (s : Scanner) {before : List Char} (edge : Edge before s.rest) :
    Edge (before ++ s.piece.trivia) s.atLexeme.rest := by
  obtain ⟨text, trivial, -⟩ := s.skips_trivia
  rw [text] at edge
  refine trivial.edge ?_ edge
  intro c hc
  obtain ⟨cs, rest⟩ := List.head?_eq_some_iff.mp hc
  exact (head_skip rest).1

/-- However many looks there have been, no run of characters has been cut in two. -/
theorem edge_after (s : Scanner) (n : Nat) : Edge (s.passed n) (s.after n).rest := by
  refine after_keeps (fun before s' => Edge before s'.rest) ?_ n [] s (edge_start _)
  intro before s' edge
  have lexeme := (s'.lexes_piece (s'.edge_atLexeme edge)).edge
  rw [List.append_assoc] at lexeme
  exact lexeme

/-- The end comes last, and once. -/
theorem exists_pieces_eq_concat (s : Scanner) : ∃ front last, s.pieces = front ++ [last] ∧
    last.reading.isEnd = true ∧ ∀ p ∈ front, p.reading.isEnd = false := by
  fun_induction pieces s with
  | case1 s ended => exact ⟨[], s.piece, rfl, ended, by simp⟩
  | case2 s more ih =>
    obtain ⟨front, last, text, ended, later⟩ := ih
    refine ⟨s.piece :: front, last, by rw [text]; rfl, ended, ?_⟩
    have first : s.next.1.isEnd = false := by simpa using more
    exact List.forall_mem_cons.mpr ⟨first, later⟩

end Scanner

/-- The scanner cuts a text without loss. What it reads, up to the first end, are the readings of
pieces that make up the text. Before the lexeme of each piece there is trivia; the lexeme has one
meaning where it stands, and that is what is read; and its bytes are a slice of the text's, as are
those between the quotes of a string. -/
theorem pieces_cut_text (text : String) :
    (Scanner.ofText text).pieces.map (·.reading) = (Scanner.ofText text).readings ∧
    Piece.join (Scanner.ofText text).pieces = text.toList ∧
    (∃ front last, (Scanner.ofText text).pieces = front ++ [last] ∧ last.reading.isEnd = true ∧
      ∀ p ∈ front, p.reading.isEnd = false) ∧
    ∀ front p back, (Scanner.ofText text).pieces = front ++ p :: back →
      Trivia (p.lexeme ++ Piece.join back) p.trivia ∧
      (∀ r, Lexes (Piece.join front ++ p.trivia) (Piece.join back) p.lexeme r ↔
        r = p.reading.result) ∧
      IsSlice text (utf8Length (Piece.join front ++ p.trivia)) p.lexeme ∧
      ∀ cs, p.lexeme = '"' :: (cs ++ ['"']) →
        IsSlice text (utf8Length (Piece.join front ++ p.trivia) + 1) cs := by
  refine ⟨Scanner.map_reading_pieces _, Scanner.join_pieces _,
    Scanner.exists_pieces_eq_concat _, ?_⟩
  intro front p back h
  have whole : text.toList = Piece.join front ++ p.trivia ++ (p.lexeme ++ Piece.join back) := by
    have joined := (Scanner.ofText text).join_pieces
    rw [h, Piece.join_append, Piece.join_cons, Piece.chars] at joined
    rw [List.append_assoc, ← List.append_assoc p.trivia]
    exact joined.symm
  obtain ⟨hp, hfront, hback⟩ := Scanner.piece_after h
  have lexes : Lexes (Piece.join front ++ p.trivia) (Piece.join back) p.lexeme p.reading.result := by
    have edge := Scanner.edge_atLexeme _ ((Scanner.ofText text).edge_after front.length)
    rw [hp, hfront, hback]
    exact Scanner.lexes_piece _ edge
  refine ⟨?_, ?_, isSlice_of_toList whole, ?_⟩
  · have trivial := ((Scanner.ofText text).after front.length).trivia_piece
    rw [← hp, ← hback] at trivial
    exact trivial
  · intro r
    constructor
    · intro other
      exact other.unique lexes
    · rintro rfl
      exact lexes
  · intro cs quoted
    have size : utf8Length (Piece.join front ++ p.trivia) + 1 =
        utf8Length (Piece.join front ++ p.trivia ++ ['"']) := by
      rw [utf8Length_append _ ['"']]
      rfl
    have inner : text.toList =
        Piece.join front ++ p.trivia ++ ['"'] ++ (cs ++ '"' :: Piece.join back) := by
      rw [whole, quoted]
      simp
    rw [size]
    exact isSlice_of_toList inner

/-- A string right behind a symbol, with a comment before them and an open string behind them. -/
theorem pieces_cut_accents : ∃ front p back,
    (Scanner.ofText ";(\n é\"ü)\"\"x").pieces = front ++ p :: back ∧
      Piece.join front ++ p.trivia = [';', '(', '\n', ' ', 'é'] ∧
      p.lexeme = ['"', 'ü', ')', '"'] ∧ Piece.join back = ['"', 'x'] ∧
      .ok (.string (String.ofList ['ü', ')'])) = p.reading.result ∧
      IsSlice ";(\n é\"ü)\"\"x" 7 ['ü', ')'] := by
  have first : (Scanner.ofText ";(\n é\"ü)\"\"x").next.1.isEnd = false := by decide +kernel
  have second : (Scanner.ofText ";(\n é\"ü)\"\"x").next.2.next.1.isEnd = false := by
    decide +kernel
  have split := Scanner.pieces_of_not_isEnd first
  rw [Scanner.pieces_of_not_isEnd second, ← List.singleton_append] at split
  have before : Piece.join [(Scanner.ofText ";(\n é\"ü)\"\"x").piece] ++
      (Scanner.ofText ";(\n é\"ü)\"\"x").next.2.piece.trivia = [';', '(', '\n', ' ', 'é'] := by
    decide +kernel
  have lexeme : (Scanner.ofText ";(\n é\"ü)\"\"x").next.2.piece.lexeme =
      '"' :: (['ü', ')'] ++ ['"']) := by decide +kernel
  have after : Piece.join (Scanner.ofText ";(\n é\"ü)\"\"x").next.2.next.2.pieces =
      ['"', 'x'] := by
    rw [Scanner.join_pieces]
    decide +kernel
  obtain ⟨-, meaning, -, inner⟩ := (pieces_cut_text ";(\n é\"ü)\"\"x").2.2.2 _ _ _ split
  have slice := inner _ lexeme
  rw [before] at meaning slice
  rw [lexeme] at meaning
  exact ⟨_, _, _, split, before, lexeme, after, (meaning _).mp (.string (by decide)), slice⟩

end Lisplet
