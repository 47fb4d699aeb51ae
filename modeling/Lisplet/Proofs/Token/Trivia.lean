import Lisplet.Token.Scanner
/-!
What may stand between tokens: blanks, and comments that run to the end of their line. Whether some
characters are a whole comment depends on what comes after them, so trivia is told from its
surroundings. The scanner skips trivia and nothing else: it skips all of it (`skip_append`), and all
that it skips is trivia (`exists_trivia`).
-/
namespace Lisplet

/-- The characters, with `rest` after them, are blanks and comments. A comment runs from a semicolon
up to the next line feed, which is not part of it, or up to the end of the text. -/
inductive Trivia (rest : List Char) : List Char → Prop where
  | nil : Trivia rest []
  | blank {c : Char} {cs : List Char} (hc : isBlank c = true) (more : Trivia rest cs) :
      Trivia rest (c :: cs)
  | comment {body cs : List Char} (inside : '\n' ∉ body)
      (stops : ∀ c ∈ (cs ++ rest).head?, c = '\n') (more : Trivia rest cs) :
      Trivia rest (';' :: (body ++ cs))

namespace Trivia

/-- Trivia that begins with a semicolon begins with a comment. -/
theorem exists_comment {rest cs : List Char} (h : Trivia rest (';' :: cs)) :
    ∃ body more, cs = body ++ more ∧ '\n' ∉ body ∧ (∀ c ∈ (more ++ rest).head?, c = '\n') ∧
      Trivia rest more := by
  cases h with
  | blank hc => exact absurd hc (by decide)
  | comment inside stops more => exact ⟨_, _, rfl, inside, stops, more⟩

/-- A comment may hold any further character but a line feed. -/
theorem comment_cons {rest cs : List Char} {c : Char} (h : Trivia rest (';' :: cs))
    (hc : c ≠ '\n') : Trivia rest (';' :: c :: cs) := by
  obtain ⟨body, more, rfl, inside, stops, tail⟩ := h.exists_comment
  have inside' : '\n' ∉ c :: body := by simp [inside, hc.symm]
  exact .comment inside' stops tail

/-- A line feed ends a comment. -/
theorem comment_feed {rest cs : List Char} (h : Trivia rest cs) : Trivia rest (';' :: '\n' :: cs) :=
  .comment List.not_mem_nil (by simp) (.blank (by decide) h)

/-- Between a comment and a token there is a blank. -/
theorem isBlank_of_mem_getLast? {rest cs : List Char} {c : Char} (h : Trivia (c :: rest) cs)
    (hc : c ≠ '\n') : ∀ d ∈ cs.getLast?, isBlank d = true := by
  induction h with
  | nil => simp
  | @blank d cs hd _ ih =>
    cases cs with
    | nil => simpa using hd
    | cons e cs => simpa [List.getLast?_cons_cons] using ih
  | @comment body cs _ stops _ ih =>
    cases cs with
    | nil => exact absurd (stops c (by simp)) hc
    | cons e cs =>
      have last : (';' :: (body ++ e :: cs)).getLast? = (e :: cs).getLast? := by
        rw [← List.cons_append, List.getLast?_append, List.getLast?_cons, Option.some_or]
      rw [last]
      exact ih

end Trivia

namespace Scanner

theorem ne_feed {c : Char} (h : isBlank c = false) : c ≠ '\n' := by
  rintro rfl
  exact absurd h (by decide)

/-- There is no line feed in a comment. -/
theorem count_feed_comment {body : List Char} (inside : '\n' ∉ body) (cs : List Char) :
    (';' :: (body ++ cs)).count '\n' = cs.count '\n' := by
  rw [List.count_cons_of_ne (by decide), List.count_append, List.count_eq_zero.mpr inside,
    Nat.zero_add]

/-- A comment is skipped up to its end. -/
theorem skip_comment {body rest : List Char} (inside : '\n' ∉ body)
    (stops : ∀ c ∈ rest.head?, c = '\n') (line : Nat) :
    skip true line (body ++ rest) = skip false line rest := by
  induction body with
  | nil =>
    cases rest with
    | nil => rfl
    | cons c rest => simp [skip, stops c rfl]
  | cons c body ih =>
    have hc : c ≠ '\n' := by
      rintro rfl
      exact inside List.mem_cons_self
    have tail := ih (fun mem => inside (List.mem_cons_of_mem c mem))
    simpa [skip, hc] using tail

/-- Trivia is skipped, and its line feeds are counted. -/
theorem skip_append {rest cs : List Char} (h : Trivia rest cs) (line : Nat) :
    skip false line (cs ++ rest) = skip false (line + cs.count '\n') rest := by
  induction h generalizing line with
  | nil => rfl
  | @blank c cs hc _ ih =>
    by_cases feed : c = '\n'
    · have count : line + (c :: cs).count '\n' = line + 1 + cs.count '\n' := by
        rw [feed, List.count_cons_self]
        omega
      rw [count, ← ih]
      simp [skip, feed]
    · have semicolon : c ≠ ';' := by
        rintro rfl
        exact absurd hc (by decide)
      rw [List.count_cons_of_ne feed, ← ih]
      simp [skip, feed, semicolon, hc]
  | @comment body cs inside stops _ ih =>
    have opened : skip false line (';' :: (body ++ cs) ++ rest) =
        skip true line (body ++ (cs ++ rest)) := by
      simp [skip]
    rw [opened, skip_comment inside stops, ih, count_feed_comment inside]

/-- What is skipped is trivia, and its line feeds are counted. A scanner inside a comment stands behind
a semicolon. -/
theorem exists_trivia (inComment : Bool) (line : Nat) (cs : List Char) :
    ∃ trivia, cs = trivia ++ (skip inComment line cs).rest ∧
      Trivia (skip inComment line cs).rest (if inComment then ';' :: trivia else trivia) ∧
      (skip inComment line cs).line = line + trivia.count '\n' := by
  induction cs generalizing inComment line with
  | nil =>
    refine ⟨[], rfl, ?_, rfl⟩
    cases inComment with
    | false => exact .nil
    | true => exact .comment List.not_mem_nil (by simp [skip]) .nil
  | cons c cs ih =>
    by_cases feed : c = '\n'
    · subst feed
      obtain ⟨trivia, text, h, count⟩ := ih false (line + 1)
      have start : skip inComment line ('\n' :: cs) = skip false (line + 1) cs := by simp [skip]
      rw [start]
      refine ⟨'\n' :: trivia, by rw [List.cons_append, ← text], ?_, ?_⟩
      · cases inComment with
        | false => exact .blank (by decide) h
        | true => exact .comment_feed h
      · rw [count, List.count_cons_self]
        omega
    · -- any other character is kept, or it is skipped without being counted
      have onward : ∀ b, skip inComment line (c :: cs) = skip b line cs →
          (∀ trivia, Trivia (skip b line cs).rest (if b then ';' :: trivia else trivia) →
            Trivia (skip b line cs).rest (if inComment then ';' :: c :: trivia else c :: trivia)) →
          ∃ trivia, c :: cs = trivia ++ (skip inComment line (c :: cs)).rest ∧
            Trivia (skip inComment line (c :: cs)).rest
              (if inComment then ';' :: trivia else trivia) ∧
            (skip inComment line (c :: cs)).line = line + trivia.count '\n' := by
        intro b start extend
        obtain ⟨trivia, text, h, count⟩ := ih b line
        rw [start]
        refine ⟨c :: trivia, by rw [List.cons_append, ← text], extend trivia h, ?_⟩
        rw [count, List.count_cons_of_ne feed]
      cases inComment with
      | true => exact onward true (by simp [skip, feed]) fun _ h => h.comment_cons feed
      | false =>
        by_cases semicolon : c = ';'
        · subst semicolon
          exact onward true (by simp [skip]) fun _ h => h
        by_cases blank : isBlank c = true
        · exact onward false (by simp [skip, feed, semicolon, blank]) fun _ h => .blank blank h
        · have stop : skip false line (c :: cs) = ⟨c :: cs, line⟩ := by
            simp [skip, feed, semicolon, blank]
          rw [stop]
          exact ⟨[], rfl, .nil, rfl⟩

end Scanner
end Lisplet
