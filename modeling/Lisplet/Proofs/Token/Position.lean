import Lisplet.Proofs.Token.Piece
import Lisplet.Text.Line
/-!
Where tokens stand. The scanner counts line feeds as it goes, so a reading is on the line after the
feeds before its first character (`line_next_after`, `exists_position`). Splitting a text into lines
counts them in another way, and the two agree: a reading before the end is on one of the lines of the
text, and it is the line that has its first byte (`look_agrees_with_lines`).
-/
namespace Lisplet
namespace Scanner

/-- The characters before the lexeme of the next look, when there have been some looks. -/
def beforeLexeme (n : Nat) (s : Scanner) : List Char := s.passed n ++ (s.after n).piece.trivia

theorem rest_eq_beforeLexeme (s : Scanner) (n : Nat) :
    s.rest = s.beforeLexeme n ++ ((s.after n).piece.lexeme ++ (s.after n).next.2.rest) := by
  rw [beforeLexeme, List.append_assoc, ← (s.after n).cut_piece.text]
  exact s.rest_eq_passed n

/-- A reading is on the line after the feeds that come before its lexeme. -/
theorem line_next_after (s : Scanner) (n : Nat) :
    (s.after n).next.1.line = s.line + (s.beforeLexeme n).count '\n' := by
  rw [(s.after n).cut_piece.reading, line_after, beforeLexeme, List.count_append, Nat.add_assoc]

/-- The end has all of the text before it. -/
theorem beforeLexeme_of_isEnd {s : Scanner} {n : Nat} (ended : (s.after n).next.1.isEnd = true) :
    s.beforeLexeme n = s.rest := by
  obtain ⟨line, last⟩ := next_of_isEnd ended
  rw [s.rest_eq_beforeLexeme n, (lexeme_piece_eq_nil_iff _).mpr ended, last]
  simp

/-- A reading before the end begins with a character, and it is on the line after the feeds that come
before that character. -/
theorem exists_position {s : Scanner} {r : Reading} (mem : r ∈ s.readings)
    (more : r.isEnd = false) : ∃ before c after, s.rest = before ++ c :: after ∧ isBlank c = false ∧
      r.line = s.line + before.count '\n' := by
  rw [← map_reading_pieces] at mem
  obtain ⟨p, hp, rfl⟩ := List.mem_map.mp mem
  obtain ⟨front, back, split⟩ := List.append_of_mem hp
  obtain ⟨rfl, -, -⟩ := piece_after split
  obtain ⟨c, cs, lexeme, hc⟩ := exists_lexeme_piece more
  refine ⟨s.beforeLexeme front.length, c, cs ++ (s.after front.length).next.2.rest, ?_, hc,
    s.line_next_after _⟩
  rw [← List.cons_append, ← lexeme]
  exact s.rest_eq_beforeLexeme _

end Scanner

namespace Line

/-- A text has a line for every line feed, and one for what comes after the last feed, unless that is
nothing. -/
theorem length_splitFrom (start : Nat) (held cs : List Char) : (splitFrom start held cs).length =
    cs.count '\n' + if cs.getLast? = some '\n' then 0 else 1 := by
  induction cs generalizing start held with
  | nil => rfl
  | cons c cs ih =>
    rw [splitFrom]
    by_cases hc : c = '\n'
    · subst hc
      cases cs with
      | nil => rfl
      | cons d cs =>
        rw [if_pos rfl, if_neg (List.cons_ne_nil d cs), List.length_cons, ih, List.count_cons_self,
          List.getLast?_cons_cons]
        omega
    · rw [if_neg hc, ih, List.count_cons_of_ne hc]
      cases cs with
      | nil => simp [hc]
      | cons d cs => rw [List.getLast?_cons_cons]

theorem length_split_le (text : String) :
    (split text).length ≤ text.toList.count '\n' + 1 := by
  rw [split, length_splitFrom]
  split <;> omega

/-- Where a character that is no line feed stands, there is a line of the text. -/
theorem count_lt_length_split {text : String} {before after : List Char} {c : Char}
    (h : text.toList = before ++ c :: after) (hc : c ≠ '\n') :
    before.count '\n' < (split text).length := by
  rw [split, length_splitFrom, h, List.count_append, List.count_cons_of_ne hc]
  by_cases last : (before ++ c :: after).getLast? = some '\n'
  · -- the final line feed is behind the character
    have behind : '\n' ∈ after := by
      rw [List.getLast?_append, List.getLast?_cons, Option.some_or] at last
      cases h : after.getLast? with
      | none => simp [h, hc] at last
      | some d =>
        rw [h] at last
        exact Option.some.inj last ▸ List.mem_of_getLast? h
    have feeds := List.count_pos_iff.mpr behind
    omega
  · rw [if_neg last]
    omega

/-- The byte at the offset is one of the line's. -/
def Covers (l : Line) (offset : Nat) : Prop := l.start ≤ offset ∧ offset < l.stop

instance (l : Line) (offset : Nat) : Decidable (l.Covers offset) :=
  inferInstanceAs (Decidable (_ ∧ _))

/-- The first line has what was held and what comes before the first line feed. -/
theorem exists_splitFrom_eq_cons (start : Nat) (held cs : List Char) :
    ∃ more ls, splitFrom start held cs = ⟨start, held.reverse ++ more⟩ :: ls := by
  induction cs generalizing held with
  | nil => exact ⟨[], [], by simp [splitFrom]⟩
  | cons c cs ih =>
    by_cases hc : c = '\n'
    · refine ⟨[], if cs = [] then [] else splitFrom (start + utf8Length held + 1) [] cs, ?_⟩
      rw [splitFrom, if_pos hc, List.append_nil]
    · obtain ⟨more, ls, h⟩ := ih (c :: held)
      refine ⟨c :: more, ls, ?_⟩
      rw [splitFrom, if_neg hc, h, List.reverse_cons, List.append_assoc]
      rfl

/-- A character that is no line feed is in the line that comes after the feeds before it. -/
theorem exists_splitFrom_covers (start : Nat) (held before : List Char) {c : Char}
    (hc : c ≠ '\n') (after : List Char) :
    ∃ l, (splitFrom start held (before ++ c :: after))[before.count '\n']? = some l ∧
      l.Covers (start + utf8Length held + utf8Length before) := by
  induction before generalizing start held with
  | nil =>
    obtain ⟨more, ls, h⟩ := exists_splitFrom_eq_cons start (c :: held) after
    refine ⟨⟨start, (c :: held).reverse ++ more⟩, ?_, ?_⟩
    · rw [List.nil_append, splitFrom, if_neg hc, h]
      rfl
    · have size := c.utf8Size_pos
      simp only [Covers, stop, utf8Length_append, utf8Length_reverse, utf8Length_cons,
        utf8Length_nil]
      omega
  | cons d before ih =>
    by_cases hd : d = '\n'
    · subst hd
      obtain ⟨l, found, covers⟩ := ih (start + utf8Length held + 1) []
      refine ⟨l, ?_, ?_⟩
      · rw [List.cons_append, splitFrom, if_pos rfl, if_neg (by simp), List.count_cons_self,
          List.getElem?_cons_succ]
        exact found
      · have size : utf8Length ('\n' :: before) = 1 + utf8Length before := rfl
        rw [size, ← Nat.add_assoc]
        exact covers
    · obtain ⟨l, found, covers⟩ := ih start (d :: held)
      refine ⟨l, ?_, ?_⟩
      · rw [List.cons_append, splitFrom, if_neg hd, List.count_cons_of_ne hd]
        exact found
      · rw [utf8Length_cons] at covers ⊢
        have same : start + (d.utf8Size + utf8Length held) + utf8Length before =
            start + utf8Length held + (d.utf8Size + utf8Length before) := by omega
        rw [← same]
        exact covers

/-- The line that is picked for a character, by the feeds before it, is the line it is in. -/
theorem covers_pick {text : String} {before after : List Char} {c : Char}
    (h : text.toList = before ++ c :: after) (hc : c ≠ '\n') :
    (pick (split text) (1 + before.count '\n')).Covers (utf8Length before) := by
  obtain ⟨l, found, covers⟩ := exists_splitFrom_covers 0 [] before hc after
  rw [← h] at found
  have bound := count_lt_length_split h hc
  have index : nearest (split text) (1 + before.count '\n') - 1 = before.count '\n' := by
    unfold nearest
    omega
  rw [pick, index, List.getD_eq_getElem?_getD, split, found]
  simpa using covers

end Line

/-- Every token and every faulty piece is on one of the lines of the text. -/
theorem Scanner.line_mem_split {text : String} {r : Reading}
    (mem : r ∈ (Scanner.ofText text).readings) (more : r.isEnd = false) :
    1 ≤ r.line ∧ r.line ≤ (Line.split text).length := by
  obtain ⟨before, c, after, cut, hc, line⟩ := exists_position mem more
  have bound := Line.count_lt_length_split cut (ne_feed hc)
  simp only [ofText] at line
  omega

/-- The scanner and the lines of the text agree. Each look, those at the end included, is on the line
after the feeds that come before its lexeme. Before the end this is one of the lines of the text, and
the one that has the first byte of the lexeme; at the end, with all feeds before it, it is at most
one more. If the text has few enough feeds, line numbers of 32 bits are enough for both. -/
theorem look_agrees_with_lines (text : String) (n : Nat) :
    let s := Scanner.ofText text
    let line := (s.after n).next.1.line
    text.toList = s.beforeLexeme n ++ ((s.after n).piece.lexeme ++ (s.after n).next.2.rest) ∧
    line = 1 + (s.beforeLexeme n).count '\n' ∧
    ((s.after n).next.1.isEnd = true →
      s.beforeLexeme n = text.toList ∧ line ≤ (Line.split text).length + 1) ∧
    ((s.after n).next.1.isEnd = false →
      (s.after n).piece.lexeme ≠ [] ∧ 1 ≤ line ∧ line ≤ (Line.split text).length ∧
        (Line.pick (Line.split text) line).Covers (utf8Length (s.beforeLexeme n))) ∧
    (text.toList.count '\n' < 4294967295 →
      line ≤ 4294967295 ∧ (Line.split text).length ≤ 4294967295) := by
  intro s line
  have cut : text.toList = _ := s.rest_eq_beforeLexeme n
  have count : line = 1 + (s.beforeLexeme n).count '\n' := s.line_next_after n
  have feeds : (s.beforeLexeme n).count '\n' ≤ text.toList.count '\n' := by
    rw [cut, List.count_append]
    omega
  refine ⟨cut, count, ?_, ?_, ?_⟩
  · intro ended
    have whole : s.beforeLexeme n = text.toList := Scanner.beforeLexeme_of_isEnd ended
    have lines : text.toList.count '\n' ≤ (Line.split text).length := by
      rw [Line.split, Line.length_splitFrom]
      omega
    exact ⟨whole, by omega⟩
  · intro more
    obtain ⟨c, cs, lexeme, hc⟩ := Scanner.exists_lexeme_piece more
    rw [lexeme, List.cons_append] at cut
    have bound := Line.count_lt_length_split cut (Scanner.ne_feed hc)
    have covers := Line.covers_pick cut (Scanner.ne_feed hc)
    rw [← count] at covers
    exact ⟨by simp [lexeme], by omega, by omega, covers⟩
  · intro few
    have lines := Line.length_split_le text
    omega

/-- A symbol behind a string over two lines, with characters of two bytes before it. -/
theorem look_agrees_after_accents :
    ((Scanner.ofText "é;\n \"ü\n\" x").after 2).next.1.isEnd = false ∧
    (Scanner.ofText "é;\n \"ü\n\" x").beforeLexeme 2 = "é;\n \"ü\n\" ".toList ∧
    ((Scanner.ofText "é;\n \"ü\n\" x").after 2).next.1.line = 3 ∧
    (Line.pick (Line.split "é;\n \"ü\n\" x") 3).Covers 11 := by
  have more : ((Scanner.ofText "é;\n \"ü\n\" x").after 2).next.1.isEnd = false := by
    decide +kernel
  have before : (Scanner.ofText "é;\n \"ü\n\" x").beforeLexeme 2 = "é;\n \"ü\n\" ".toList := by
    decide +kernel
  obtain ⟨-, line, -, there, -⟩ := look_agrees_with_lines "é;\n \"ü\n\" x" 2
  obtain ⟨-, -, -, covers⟩ := there more
  rw [before] at line covers
  rw [line] at covers
  exact ⟨more, before, line, covers⟩

end Lisplet
