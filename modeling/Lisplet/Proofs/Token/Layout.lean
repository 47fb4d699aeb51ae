import Lisplet.Expr.Printer
import Lisplet.Proofs.Token.Piece
/-!
Scanning undoes writing, under every layout. Tokens are arranged in a text when it has their texts in
order, with trivia before, between and after them; only two atoms must be kept apart (`Arranged`).
However they are arranged, the scanner finds these tokens and nothing else
(`Scanner.readings_of_arranged`). The layout of printed expressions is one such arrangement
(`arranged_lines`).
-/
namespace Lisplet

/-- The text is made up of the texts of the tokens, with trivia before, between and after them. There is
some trivia between two atoms; `prev` is the token before the text, if there is one. -/
inductive Arranged : Option TokenKind → List TokenKind → List Char → Prop where
  | last {prev : Option TokenKind} {trivia : List Char} (gap : Trivia [] trivia) :
      Arranged prev [] trivia
  | token {prev : Option TokenKind} {k : TokenKind} {ks : List TokenKind} {trivia rest : List Char}
      (writable : k.Writable) (gap : Trivia (k.lexeme.toList ++ rest) trivia)
      (apart : (∃ j ∈ prev, j.isAtom = true) → k.isAtom = true → trivia ≠ [])
      (more : Arranged (some k) ks rest) :
      Arranged prev (k :: ks) (trivia ++ (k.lexeme.toList ++ rest))

/-- Trivia begins with a delimiter. -/
theorem Trivia.isDelimiter_head {rest cs : List Char} (h : Trivia rest cs) :
    ∀ c ∈ cs.head?, Scanner.isDelimiter c = true := by
  cases h with
  | nil => simp
  | blank hc => simp [Scanner.isDelimiter, hc]
  | comment => simp [Scanner.isDelimiter]

/-- A token that is no atom begins with a delimiter. -/
theorem TokenKind.Writable.isDelimiter_head {k : TokenKind} (h : k.Writable)
    (other : k.isAtom = false) (rest : List Char) :
    ∀ c ∈ (k.lexeme.toList ++ rest).head?, Scanner.isDelimiter c = true := by
  cases k with
  | leftParen | rightParen | string => simp [lexeme, Scanner.isDelimiter]
  | integer | symbol => cases other
  | eof => exact absurd rfl h.ne_eof

namespace Arranged

/-- A token may come at once, unless an atom comes after an atom. -/
theorem at_once {prev : Option TokenKind} {k : TokenKind} {ks : List TokenKind} {rest : List Char}
    (writable : k.Writable) (tight : (∃ j ∈ prev, j.isAtom = true) → k.isAtom = false)
    (more : Arranged (some k) ks rest) : Arranged prev (k :: ks) (k.lexeme.toList ++ rest) := by
  refine .token writable .nil ?_ more
  intro atom hk
  rw [tight atom] at hk
  cases hk

/-- What comes after an atom begins with a delimiter. -/
theorem isDelimiter_head {k : TokenKind} {ks : List TokenKind} {cs : List Char}
    (h : Arranged (some k) ks cs) (atom : k.isAtom = true) :
    ∀ c ∈ cs.head?, Scanner.isDelimiter c = true := by
  cases h with
  | last gap => exact gap.isDelimiter_head
  | @token _ j _ trivia rest writable gap apart _ =>
    cases trivia with
    | nil =>
      have other : j.isAtom = false :=
        Bool.eq_false_iff.mpr fun isAtom => apart ⟨k, rfl, atom⟩ isAtom rfl
      exact writable.isDelimiter_head other rest
    | cons c trivia => exact gap.isDelimiter_head

end Arranged

namespace Scanner

/-- Trivia is passed over. -/
theorem next_append {rest trivia : List Char} (h : Trivia rest trivia) (line : Nat) :
    next ⟨trivia ++ rest, line⟩ = next ⟨rest, line + trivia.count '\n'⟩ := by
  simp only [next, skip_append h]

/-- The scanner finds the tokens that are arranged in its text, and then the end. -/
theorem readings_of_arranged {prev : Option TokenKind} {ks : List TokenKind} {cs : List Char}
    (h : Arranged prev ks cs) (line : Nat) : ∃ ts last,
      readings ⟨cs, line⟩ = (ts ++ [Token.mk .eof last]).map .ok ∧ ts.map (·.kind) = ks := by
  induction h generalizing line with
  | @last _ trivia gap =>
    have look := next_append gap line
    rw [List.append_nil, next_of_rest_nil] at look
    refine ⟨[], line + trivia.count '\n', ?_, rfl⟩
    rw [readings_of_isEnd (by rw [look]; rfl), look]
    rfl
  | @token _ k ks trivia rest writable gap _ more ih =>
    obtain ⟨line', found⟩ := next_lexeme writable more.isDelimiter_head (line + trivia.count '\n')
    have look := (next_append gap line).trans found
    obtain ⟨ts, last, later, rfl⟩ := ih line'
    refine ⟨⟨k, line + trivia.count '\n'⟩ :: ts, last, ?_, rfl⟩
    rw [readings_of_not_isEnd (by simp [look, writable.ne_eof]), look, later]
    rfl

end Scanner

/-- Scanning undoes writing: where tokens are arranged in a text, whatever the trivia between them,
the scanner gives these tokens in order, no faults among them, and then the end. -/
theorem scan_arranged (text : String) (ks : List TokenKind) (h : Arranged none ks text.toList) :
    (Scanner.ofText text).readings.map Reading.result = ks.map .ok ++ [.ok .eof] := by
  obtain ⟨ts, last, found, rfl⟩ := Scanner.readings_of_arranged h 1
  have kinds : (ts.map Except.ok).map Reading.result = (ts.map (·.kind)).map .ok := by
    rw [List.map_map, List.map_map]
    rfl
  rw [Scanner.ofText, found, List.map_append, List.map_append, kinds]
  rfl

/-- A string right before a numeral, a comment with a quote in it between two atoms, and one at the
end that nothing follows. -/
theorem scan_arranged_tight :
    Arranged none [.string "a;\n(", .integer (-7), .symbol "-", .leftParen, .symbol "é"]
      "\"a;\n(\"-7;\")x\n-(é;".toList ∧
    (Scanner.ofText "\"a;\n(\"-7;\")x\n-(é;").readings.map Reading.result =
      [.ok (.string "a;\n("), .ok (.integer (-7)), .ok (.symbol "-"), .ok .leftParen,
        .ok (.symbol "é"), .ok .eof] := by
  have last : Arranged (some (.symbol "é")) [] [';'] :=
    .last (.comment List.not_mem_nil (by simp) .nil)
  have name : Arranged (some .leftParen) [.symbol "é"] ['é', ';'] :=
    .at_once (by decide) (by decide) last
  have call : Arranged (some (.symbol "-")) [.leftParen, .symbol "é"] ['(', 'é', ';'] :=
    .at_once (by decide) (by decide) name
  have comment : Trivia ['-', '(', 'é', ';'] (';' :: (['"', ')', 'x'] ++ ['\n'])) :=
    .comment (by decide) (by simp) (.blank (by decide) .nil)
  have atoms : Arranged (some (.integer (-7))) [.symbol "-", .leftParen, .symbol "é"]
      [';', '"', ')', 'x', '\n', '-', '(', 'é', ';'] :=
    .token (by decide) comment (by decide) call
  have whole : Arranged none [.string "a;\n(", .integer (-7), .symbol "-", .leftParen, .symbol "é"]
      "\"a;\n(\"-7;\")x\n-(é;".toList :=
    .at_once (by decide) (by decide) (.at_once (by decide) (by decide) atoms)
  exact ⟨whole, scan_arranged _ _ whole⟩

namespace Arranged

/-- A blank may come before arranged tokens, whatever comes before it. -/
theorem blank {prev prev' : Option TokenKind} {ks : List TokenKind} {cs : List Char} {c : Char}
    (hc : isBlank c = true) (h : Arranged prev' ks cs) : Arranged prev ks (c :: cs) := by
  cases h with
  | last gap => exact .last (.blank hc gap)
  | token writable gap _ more => exact .token writable (.blank hc gap) (by simp) more

/-- Nothing need come between two tokens that are not both atoms. -/
theorem behind {j k : TokenKind} {ks : List TokenKind} {cs : List Char}
    (h : Arranged none (k :: ks) cs) (tight : j.isAtom = false ∨ k.isAtom = false) :
    Arranged (some j) (k :: ks) cs := by
  cases h with
  | token writable gap _ more =>
    refine .token writable gap ?_ more
    rintro ⟨i, hi, atom⟩ hk
    obtain rfl := Option.some.inj hi
    simp [atom, hk] at tight

end Arranged

/-- A layout arranges its tokens before what comes after it. -/
theorem arranged_layout {ks : List TokenKind} (writable : ∀ k ∈ ks, k.Writable)
    {js : List TokenKind} {rest : List Char} (tail : ∀ prev, Arranged prev js rest) :
    Arranged none (ks ++ js) (layout ks ++ rest) := by
  fun_induction layout ks with
  | case1 => exact tail none
  | case2 k => exact .at_once (writable k (by simp)) (by simp) (tail (some k))
  | case3 k u ks ih =>
    have later := ih fun j hj => writable j (List.mem_cons_of_mem k hj)
    have more : Arranged (some k) (u :: (ks ++ js))
        ((if k = .leftParen ∨ u = .rightParen then [] else [' ']) ++
          (layout (u :: ks) ++ rest)) := by
      split
      · next tight =>
        refine later.behind ?_
        rcases tight with rfl | rfl
        · exact .inl rfl
        · exact .inr rfl
      · exact later.blank (by decide)
    have whole : Arranged none _ _ := .at_once (writable k (by simp)) (by simp) more
    simpa using whole

/-- Layouts, one to a line, arrange the tokens of all of them. -/
theorem arranged_lines {kss : List (List TokenKind)}
    (writable : ∀ ks ∈ kss, ∀ k ∈ ks, k.Writable) :
    Arranged none kss.flatten (['\n'].intercalate (kss.map layout)) := by
  induction kss with
  | nil => exact .last .nil
  | cons ks kss ih =>
    obtain ⟨first, others⟩ := List.forall_mem_cons.mp writable
    cases kss with
    | nil =>
      have whole := @arranged_layout ks first [] [] fun _ => .last .nil
      simpa using whole
    | cons js kss =>
      have feed : isBlank '\n' = true := by decide
      have whole := arranged_layout first fun prev => (ih others).blank feed
      simpa using whole

end Lisplet
