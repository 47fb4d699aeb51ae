import Mathlib.Logic.Function.Iterate
import Lisplet.Proofs.Token.Append
/-!
A look of the scanner, character by character. It goes through a few phases: it skips blanks, it is in
a comment, in a string or in an atom. None of the loops for these phases says when it stops. But each
round of them takes a character or is the last one (`lookRound`), so a look goes on for at most one
round more than there are characters in its piece of the text. Cut off after these rounds it gives the
same reading and leaves the same text, be it a token, a faulty piece or the end, whatever is put in
place of the further rounds (`next_eq_iterate`).

The rounds are followed through what stands in the text: first through trivia (`iterate_trivia`), then
through a lexeme (`iterate_lexes`).
-/
namespace Lisplet
namespace Scanner

/-- What a look is in the midst of. A string and an atom have the line they start on and the characters
that have been taken, the last one first. -/
inductive Phase where
  | gap
  | comment
  | string (start : Nat) (held : List Char)
  | atom (start : Nat) (held : List Char)
  deriving DecidableEq, Repr

/-- The line behind a character on the given line. -/
def lineAfter (c : Char) (line : Nat) : Nat := if c = '\n' then line + 1 else line

theorem lineAfter_add_count (c : Char) (line : Nat) (cs : List Char) :
    lineAfter c line + cs.count '\n' = line + (c :: cs).count '\n' := by
  unfold lineAfter
  by_cases feed : c = '\n'
  · rw [if_pos feed, feed, List.count_cons_self]
    omega
  · rw [if_neg feed, List.count_cons_of_ne feed]

/-- One round of a look: it takes a character, or it is the last one. `again` does the rounds after
it. -/
def lookRound (again : Phase → Scanner → Reading × Scanner) : Phase → Scanner → Reading × Scanner
  | .gap, ⟨[], line⟩ => (.ok ⟨.eof, line⟩, ⟨[], line⟩)
  | .gap, ⟨c :: cs, line⟩ =>
    if isBlank c then again .gap ⟨cs, lineAfter c line⟩
    else if c = ';' then again .comment ⟨cs, line⟩
    else if c = '(' then (.ok ⟨.leftParen, line⟩, ⟨cs, line⟩)
    else if c = ')' then (.ok ⟨.rightParen, line⟩, ⟨cs, line⟩)
    else if c = '"' then again (.string line []) ⟨cs, line⟩
    else again (.atom line [c]) ⟨cs, line⟩
  | .comment, ⟨[], line⟩ => (.ok ⟨.eof, line⟩, ⟨[], line⟩)
  | .comment, ⟨c :: cs, line⟩ =>
    if c = '\n' then again .gap ⟨cs, line + 1⟩ else again .comment ⟨cs, line⟩
  | .string start _, ⟨[], line⟩ => (.error ⟨.unclosedString, start⟩, ⟨[], line⟩)
  | .string start held, ⟨c :: cs, line⟩ =>
    if c = '"' then (.ok ⟨.string (String.ofList held.reverse), start⟩, ⟨cs, line⟩)
    else again (.string start (c :: held)) ⟨cs, lineAfter c line⟩
  | .atom start held, ⟨[], line⟩ => (.ofResult start (classify held.reverse), ⟨[], line⟩)
  | .atom start held, ⟨c :: cs, line⟩ =>
    if isDelimiter c then (.ofResult start (classify held.reverse), ⟨c :: cs, line⟩)
    else again (.atom start (c :: held)) ⟨cs, line⟩

section
variable (further : Phase → Scanner → Reading × Scanner)

/-- With a round for each character there is one for the first, and then one for each of the others. -/
theorem iterate_cons (c : Char) (cs : List Char) (n : Nat) :
    lookRound^[(c :: cs).length + n] further = lookRound (lookRound^[cs.length + n] further) := by
  rw [List.length_cons, Nat.add_right_comm, Function.iterate_succ_apply']

/-! Through trivia. -/

/-- A comment is over at a line feed and at the end of the text. -/
theorem lookRound_comment_end {rest : List Char} (stops : ∀ c ∈ rest.head?, c = '\n') (line : Nat) :
    lookRound further .comment ⟨rest, line⟩ = lookRound further .gap ⟨rest, line⟩ := by
  cases rest with
  | nil => rfl
  | cons c rest =>
    obtain rfl := stops c rfl
    have blank : isBlank '\n' = true := by decide
    simp [lookRound, blank, lineAfter]

theorem iterate_comment {body : List Char} (inside : '\n' ∉ body) (n : Nat) (rest : List Char)
    (line : Nat) : lookRound^[body.length + n] further .comment ⟨body ++ rest, line⟩ =
      lookRound^[n] further .comment ⟨rest, line⟩ := by
  induction body with
  | nil => simp
  | cons c body ih =>
    have hc : c ≠ '\n' := (List.ne_of_not_mem_cons inside).symm
    rw [iterate_cons, List.cons_append, lookRound, if_neg hc]
    exact ih (List.not_mem_of_not_mem_cons inside)

/-- Trivia takes as many rounds as it has characters. -/
theorem iterate_trivia {rest cs : List Char} (h : Trivia rest cs) (n line : Nat) :
    lookRound^[cs.length + (n + 1)] further .gap ⟨cs ++ rest, line⟩ =
      lookRound^[n + 1] further .gap ⟨rest, line + cs.count '\n'⟩ := by
  induction h generalizing line with
  | nil => simp
  | @blank c cs hc _ ih =>
    rw [iterate_cons, List.cons_append, lookRound, if_pos hc, ih, lineAfter_add_count]
  | @comment body cs inside stops _ ih =>
    have blank : isBlank ';' = false := by decide
    have opened : lookRound^[(';' :: (body ++ cs)).length + (n + 1)] further .gap
        ⟨';' :: (body ++ cs) ++ rest, line⟩ = lookRound^[body.length + (cs.length + (n + 1))] further
          .comment ⟨body ++ (cs ++ rest), line⟩ := by
      rw [iterate_cons, List.length_append, Nat.add_assoc, List.cons_append, List.append_assoc]
      simp [lookRound, blank]
    -- the round behind the comment, and there is one, is as good as one of a gap
    have closed : lookRound^[cs.length + (n + 1)] further .comment ⟨cs ++ rest, line⟩ =
        lookRound^[cs.length + (n + 1)] further .gap ⟨cs ++ rest, line⟩ := by
      rw [← Nat.add_assoc, Function.iterate_succ_apply']
      exact lookRound_comment_end _ stops line
    rw [opened, iterate_comment further inside, closed, ih, count_feed_comment inside]

/-! Through a lexeme. -/

/-- A quote opens a string. -/
theorem iterate_quote (n : Nat) (cs : List Char) (line : Nat) :
    lookRound^[n + 1] further .gap ⟨'"' :: cs, line⟩ =
      lookRound^[n] further (.string line []) ⟨cs, line⟩ := by
  have quote : isBlank '"' = false := by decide
  rw [Function.iterate_succ_apply']
  simp [lookRound, quote]

theorem iterate_string {cs : List Char} (inside : '"' ∉ cs) (n : Nat) (rest : List Char)
    (start : Nat) (held : List Char) (line : Nat) :
    lookRound^[cs.length + n] further (.string start held) ⟨cs ++ rest, line⟩ =
      lookRound^[n] further (.string start (cs.reverse ++ held))
        ⟨rest, line + cs.count '\n'⟩ := by
  induction cs generalizing held line with
  | nil => simp
  | cons c cs ih =>
    have hc : c ≠ '"' := (List.ne_of_not_mem_cons inside).symm
    have tail := ih (List.not_mem_of_not_mem_cons inside) (c :: held) (lineAfter c line)
    rw [iterate_cons, List.cons_append, lookRound, if_neg hc, tail, lineAfter_add_count,
      List.reverse_cons, List.append_assoc]
    rfl

theorem iterate_atom {cs : List Char} (inside : ∀ c ∈ cs, isDelimiter c = false) (n : Nat)
    (rest : List Char) (start : Nat) (held : List Char) (line : Nat) :
    lookRound^[cs.length + n] further (.atom start held) ⟨cs ++ rest, line⟩ =
      lookRound^[n] further (.atom start (cs.reverse ++ held)) ⟨rest, line⟩ := by
  induction cs generalizing held with
  | nil => simp
  | cons c cs ih =>
    have hc := inside c List.mem_cons_self
    have tail := ih (fun d mem => inside d (List.mem_cons_of_mem c mem)) (c :: held)
    rw [iterate_cons, List.cons_append, lookRound, if_neg (by simp [hc]), tail, List.reverse_cons,
      List.append_assoc]
    rfl

/-- An atom is over at a delimiter and at the end of the text. -/
theorem lookRound_atom_end {rest : List Char} (ends : ∀ c ∈ rest.head?, isDelimiter c = true)
    (start : Nat) (held : List Char) (line : Nat) :
    lookRound further (.atom start held) ⟨rest, line⟩ =
      (.ofResult start (classify held.reverse), ⟨rest, line⟩) := by
  cases rest with
  | nil => rfl
  | cons c rest => simp [lookRound, ends c rfl]

/-- A run of characters takes one round more than it has characters. -/
theorem iterate_run {before cs after : List Char} (run : IsRun before cs after) (n line : Nat) :
    lookRound^[cs.length + (n + 1)] further .gap ⟨cs ++ after, line⟩ =
      (.ofResult line (classify cs), ⟨after, line⟩) := by
  cases cs with
  | nil => exact absurd rfl run.some
  | cons c cs =>
    have hc := run.inside c List.mem_cons_self
    simp only [isDelimiter, Bool.or_eq_false_iff, beq_eq_false_iff_ne] at hc
    obtain ⟨⟨⟨⟨hb, hl⟩, hr⟩, hq⟩, hs⟩ := hc
    have inside : ∀ d ∈ cs, isDelimiter d = false := fun d mem =>
      run.inside d (List.mem_cons_of_mem c mem)
    have whole : (cs.reverse ++ [c]).reverse = c :: cs := by simp
    rw [iterate_cons, List.cons_append, lookRound, if_neg (by simp [hb]), if_neg hs, if_neg hl,
      if_neg hr, if_neg hq, iterate_atom further inside, Function.iterate_succ_apply',
      lookRound_atom_end _ run.ends, whole]

/-- A lexeme takes at most one round more than it has characters. -/
theorem iterate_lexes {before after cs : List Char} {r : Except ScanFault TokenKind}
    (h : Lexes before after cs r) (n line : Nat) :
    lookRound^[cs.length + (n + 1)] further .gap ⟨cs ++ after, line⟩ =
      (.ofResult line r, ⟨after, line + cs.count '\n'⟩) := by
  cases h with
  | leftParen | rightParen =>
    rw [List.length_singleton, Nat.add_comm, Function.iterate_succ_apply']
    rfl
  | @string cs inside =>
    have text : '"' :: (cs ++ ['"']) ++ after = '"' :: (cs ++ '"' :: after) := by simp
    have size : ('"' :: (cs ++ ['"'])).length + (n + 1) = cs.length + (n + 2) + 1 := by
      simp only [List.length_cons, List.length_append, List.length_nil]
      omega
    have count : ('"' :: (cs ++ ['"'])).count '\n' = cs.count '\n' := by simp
    rw [text, size, count, iterate_quote, iterate_string further inside,
      Function.iterate_succ_apply']
    simp [lookRound, Reading.ofResult]
  | @unclosed cs inside last =>
    subst last
    rw [List.length_cons, Nat.add_right_comm, List.cons_append, iterate_quote,
      iterate_string further inside, Function.iterate_succ_apply',
      List.count_cons_of_ne (by decide)]
    rfl
  | integer run numeral value =>
    rw [iterate_run further run, classify_integer numeral value, count_feed_run run, Nat.add_zero]
  | outOfRange run numeral range =>
    rw [iterate_run further run, classify_outOfRange numeral range, count_feed_run run,
      Nat.add_zero]
  | symbol run word =>
    rw [iterate_run further run, classify_symbol word, count_feed_run run, Nat.add_zero]
  | eof last =>
    subst last
    rw [List.length_nil, Nat.zero_add, Function.iterate_succ_apply']
    rfl

end

/-- A look goes on for at most one round more than there are characters in its piece. -/
theorem next_eq_iterate (s : Scanner) {n : Nat} (bound : s.piece.chars.length < n)
    (further : Phase → Scanner → Reading × Scanner) :
    lookRound^[n] further .gap s = s.next := by
  have text := s.cut_piece.text
  have gap := s.trivia_piece
  have lexes := s.lexes_piece (edge_start _)
  have found := next_trivia_lexes gap lexes s.line
  rw [← text] at found
  obtain ⟨k, size⟩ : ∃ k, n = s.piece.trivia.length + (s.piece.lexeme.length + k + 1) := by
    rw [Piece.chars, List.length_append] at bound
    exact ⟨n - (s.piece.trivia.length + s.piece.lexeme.length + 1), by omega⟩
  calc lookRound^[n] further .gap s
      = lookRound^[s.piece.trivia.length + (s.piece.lexeme.length + k + 1)] further .gap
          ⟨s.piece.trivia ++ (s.piece.lexeme ++ s.next.2.rest), s.line⟩ := by rw [← size, ← text]
    _ = lookRound^[s.piece.lexeme.length + (k + 1)] further .gap
          ⟨s.piece.lexeme ++ s.next.2.rest, s.line + s.piece.trivia.count '\n'⟩ :=
        iterate_trivia further gap _ _
    _ = (.ofResult (s.line + s.piece.trivia.count '\n') s.next.1.result, ⟨s.next.2.rest,
          s.line + s.piece.trivia.count '\n' + s.piece.lexeme.count '\n'⟩) :=
        iterate_lexes further lexes k _
    _ = s.next := by
      rw [Nat.add_assoc, ← List.count_append]
      exact found.symm

end Scanner
end Lisplet
