import Lisplet.Proofs.Text.Numeral
import Lisplet.Token.Scanner
/-!
Lexemes and what they mean. By its own characters, and by where it stands, a lexeme has at most one
meaning (`Lexes`); the scanner finds it where the lexeme begins and moves past the lexeme
(`next_lexes`); and where there is a character to begin with, there is a lexeme (`exists_lexes`).

So a token that can be written at all is found again where its text is scanned, as long as the text
of an atom does not run on into what follows (`next_lexeme`); and every token that a lexeme means can
be written (`Lexes.writable`).
-/
namespace Lisplet

/-- The text can be a symbol: it is not empty, no character ends it early, and it is no numeral. -/
def isName (x : String) : Bool :=
  !x.toList.isEmpty && x.toList.all (!Scanner.isDelimiter ·) && !Numeral.isNumeral x.toList

theorem isName_iff {x : String} : isName x = true ↔ x.toList ≠ [] ∧
    (∀ c ∈ x.toList, Scanner.isDelimiter c = false) ∧ Numeral.isNumeral x.toList = false := by
  simp [isName, and_assoc]

/-- The reading on `line` with this result. -/
def Reading.ofResult (line : Nat) : Except ScanFault TokenKind → Reading
  | .ok k => .ok ⟨k, line⟩
  | .error f => .error ⟨f, line⟩

/-- The reading without its line. -/
def Reading.result : Reading → Except ScanFault TokenKind
  | .ok t => .ok t.kind
  | .error e => .error e.fault

@[simp] theorem Reading.result_ofResult (line : Nat) (r : Except ScanFault TokenKind) :
    (ofResult line r).result = r := by cases r <;> rfl

namespace TokenKind

/-- A token of this kind can be written: a string has no quote in it, and a symbol is a name. -/
def Writable : TokenKind → Prop
  | .string s => '"' ∉ s.toList
  | .symbol x => isName x = true
  | .eof => False
  | _ => True

instance : (k : TokenKind) → Decidable k.Writable
  | .string s => inferInstanceAs (Decidable ('"' ∉ s.toList))
  | .symbol x => inferInstanceAs (Decidable (isName x = true))
  | .eof => inferInstanceAs (Decidable False)
  | .leftParen | .rightParen | .integer _ => inferInstanceAs (Decidable True)

theorem Writable.ne_eof {k : TokenKind} (h : k.Writable) : k ≠ .eof := by
  rintro rfl
  exact h

/-- The token is written as a run of characters that has no end of its own. -/
def isAtom : TokenKind → Bool
  | .integer _ | .symbol _ => true
  | _ => false

end TokenKind

namespace Scanner

theorem isDelimiter_of_isDigit {c : Char} (h : c.isDigit = true) : isDelimiter c = false := by
  have range := Char.isDigit_iff_toNat.mp h
  have low : 48 ≤ c.toNat := range.1
  have high : c.toNat ≤ 57 := range.2
  have apart : ∀ d : Char, ¬ (48 ≤ d.toNat ∧ d.toNat ≤ 57) → (c == d) = false := by
    intro d hd
    refine beq_false_of_ne ?_
    rintro rfl
    exact hd ⟨low, high⟩
  have blank : isBlank c = false := by
    simp only [isBlank, Bool.or_eq_false_iff, Bool.and_eq_false_iff, decide_eq_false_iff_not,
      beq_eq_false_iff_ne]
    omega
  simp [isDelimiter, blank, apart '(' (by decide), apart ')' (by decide), apart '"' (by decide),
    apart ';' (by decide)]

theorem isDelimiter_ofInt (v : Int) : ∀ c ∈ Numeral.ofInt v, isDelimiter c = false := by
  have digits : ∀ c ∈ Nat.toDigits 10 v.natAbs, isDelimiter c = false := fun c hc =>
    isDelimiter_of_isDigit (Nat.isDigit_of_mem_toDigits (by decide) (by decide) hc)
  unfold Numeral.ofInt
  split
  · rintro c (_ | ⟨_, hc⟩)
    · decide
    · exact digits c hc
  · exact digits

/-- A character that is neither a blank nor a semicolon begins a token. -/
theorem next_start {c : Char} (hb : isBlank c = false) (hs : c ≠ ';') (cs : List Char) (line : Nat) :
    next ⟨c :: cs, line⟩ = scan line c cs := by
  have feed : c ≠ '\n' := by
    rintro rfl
    exact absurd hb (by decide)
  simp [next, skip, feed, hs, hb]

/-- An atom that is followed by a delimiter, or by nothing, is taken whole. -/
theorem next_atom {cs rest : List Char} (some : cs ≠ [])
    (plain : ∀ c ∈ cs, isDelimiter c = false) (ends : ∀ c ∈ rest.head?, isDelimiter c = true)
    (line : Nat) : next ⟨cs ++ rest, line⟩ = (.ofResult line (classify cs), ⟨rest, line⟩) := by
  have all : ∀ c ∈ cs, (!isDelimiter c) = true := by simpa using plain
  have stop : rest.takeWhile (!isDelimiter ·) = [] ∧ rest.dropWhile (!isDelimiter ·) = rest := by
    cases rest with
    | nil => exact ⟨rfl, rfl⟩
    | cons d rest => simp [ends d rfl]
  cases cs with
  | nil => exact absurd rfl some
  | cons c cs =>
    have hc := plain c (by simp)
    simp only [isDelimiter, Bool.or_eq_false_iff, beq_eq_false_iff_ne] at hc
    obtain ⟨⟨⟨⟨hb, hl⟩, hr⟩, hq⟩, hs⟩ := hc
    rw [List.cons_append, next_start hb hs]
    simp only [scan, if_neg hl, if_neg hr, if_neg hq, scanAtom]
    rw [← List.cons_append, List.takeWhile_append_of_pos all, List.dropWhile_append_of_pos all,
      stop.1, stop.2, List.append_nil]
    cases classify (c :: cs) <;> rfl

theorem ne_quote {cs : List Char} (h : '"' ∉ cs) : ∀ c ∈ cs, decide (c ≠ '"') = true := by
  intro c hc
  refine decide_eq_true ?_
  rintro rfl
  exact h hc

/-- A string is taken up to its closing quote. -/
theorem next_string {cs : List Char} (h : '"' ∉ cs) (rest : List Char) (line : Nat) :
    next ⟨'"' :: (cs ++ '"' :: rest), line⟩ =
      (.ok ⟨.string (String.ofList cs), line⟩, ⟨rest, line + cs.count '\n'⟩) := by
  have all := ne_quote h
  rw [next_start (by decide) (by decide)]
  simp only [scan, scanString, List.takeWhile_append_of_pos all, List.dropWhile_append_of_pos all]
  simp

/-- Where there is no closing quote, all the rest of the text is taken. -/
theorem next_unclosed {cs : List Char} (h : '"' ∉ cs) (line : Nat) :
    next ⟨'"' :: cs, line⟩ = (.error ⟨.unclosedString, line⟩, ⟨[], line + cs.count '\n'⟩) := by
  have all := ne_quote h
  have body : (cs ++ []).takeWhile (· ≠ '"') = cs ++ [] := List.takeWhile_append_of_pos all
  have none : (cs ++ []).dropWhile (· ≠ '"') = [] := List.dropWhile_append_of_pos all
  rw [List.append_nil] at body none
  rw [next_start (by decide) (by decide)]
  simp only [scan, scanString, body, none]
  simp

end Scanner

/-- The characters stand between `before` and `after` as a run of their own: they hold no delimiter,
and the run could be made no longer at either end. -/
structure IsRun (before cs after : List Char) : Prop where
  some : cs ≠ []
  inside : ∀ c ∈ cs, Scanner.isDelimiter c = false
  starts : ∀ c ∈ before.getLast?, Scanner.isDelimiter c = true
  ends : ∀ c ∈ after.head?, Scanner.isDelimiter c = true

/-- The characters, between `before` and `after` in a text, are a lexeme with this meaning. -/
inductive Lexes (before after : List Char) : List Char → Except ScanFault TokenKind → Prop where
  | leftParen : Lexes before after ['('] (.ok .leftParen)
  | rightParen : Lexes before after [')'] (.ok .rightParen)
  | string {cs : List Char} (inside : '"' ∉ cs) :
      Lexes before after ('"' :: (cs ++ ['"'])) (.ok (.string (String.ofList cs)))
  /-- A quote that no other follows up to the end of the text. -/
  | unclosed {cs : List Char} (inside : '"' ∉ cs) (last : after = []) :
      Lexes before after ('"' :: cs) (.error .unclosedString)
  | integer {cs : List Char} {v : Int64} (run : IsRun before cs after)
      (numeral : Numeral.Shaped cs) (value : v.toInt = Numeral.value cs) :
      Lexes before after cs (.ok (.integer v))
  | outOfRange {cs : List Char} (run : IsRun before cs after) (numeral : Numeral.Shaped cs)
      (range : ∀ v : Int64, v.toInt ≠ Numeral.value cs) :
      Lexes before after cs (.error (.integerOutOfRange (String.ofList cs)))
  | symbol {cs : List Char} (run : IsRun before cs after) (word : ¬ Numeral.Shaped cs) :
      Lexes before after cs (.ok (.symbol (String.ofList cs)))
  /-- The end of the text has no characters. -/
  | eof (last : after = []) : Lexes before after [] (.ok .eof)

/-- No run of characters goes on from `before` into `rest`. -/
def Edge (before rest : List Char) : Prop :=
  (∀ c ∈ before.getLast?, Scanner.isDelimiter c = true) ∨
    ∀ c ∈ rest.head?, Scanner.isDelimiter c = true

theorem edge_start (rest : List Char) : Edge [] rest := .inl (by simp)

namespace Lexes

/-- No run of characters goes on behind a lexeme. -/
theorem edge {before after cs : List Char} {r : Except ScanFault TokenKind}
    (h : Lexes before after cs r) : Edge (before ++ cs) after := by
  cases h with
  | leftParen | rightParen => exact .inl (by simp [Scanner.isDelimiter])
  | @string cs =>
    have quote : (before ++ '"' :: (cs ++ ['"'])).getLast? = some '"' := by
      rw [← List.cons_append, ← List.append_assoc, List.getLast?_concat]
    exact .inl (by simp [quote, Scanner.isDelimiter])
  | unclosed _ last | eof last =>
    subst last
    exact .inr (by simp)
  | integer run | outOfRange run | symbol run => exact .inr run.ends

/-- Only the end of the text has no characters. -/
theorem eq_nil_iff {before after cs : List Char} {r : Except ScanFault TokenKind}
    (h : Lexes before after cs r) : cs = [] ↔ r = .ok .eof := by
  cases h with
  | leftParen | rightParen | string | unclosed | eof => simp
  | integer run | outOfRange run | symbol run => simp [run.some]

theorem isBlank_head {before after cs : List Char} {c : Char} {r : Except ScanFault TokenKind}
    (h : Lexes before after (c :: cs) r) : isBlank c = false := by
  have plain : Scanner.isDelimiter c = false → isBlank c = false := by
    intro hc
    simp only [Scanner.isDelimiter, Bool.or_eq_false_iff] at hc
    exact hc.1.1.1.1
  cases h with
  | leftParen | rightParen | string | unclosed => decide
  | integer run | outOfRange run | symbol run => exact plain (run.inside c List.mem_cons_self)

/-- A token that a lexeme means can be written. -/
theorem writable {before after cs : List Char} {k : TokenKind} (h : Lexes before after cs (.ok k))
    (more : k ≠ .eof) : k.Writable := by
  cases h with
  | leftParen | rightParen | integer => trivial
  | string inside =>
    rw [TokenKind.Writable, String.toList_ofList]
    exact inside
  | symbol run word =>
    refine isName_iff.mpr ?_
    rw [String.toList_ofList]
    exact ⟨run.some, run.inside, Numeral.isNumeral_eq_false_iff.mpr word⟩
  | eof => exact absurd rfl more

end Lexes

namespace Scanner

theorem classify_integer {cs : List Char} {v : Int64} (numeral : Numeral.Shaped cs)
    (value : v.toInt = Numeral.value cs) : classify cs = .ok (.integer v) := by
  simp [classify, Numeral.isNumeral_iff.mpr numeral, Numeral.read?_eq_some_iff.mpr value]

theorem classify_outOfRange {cs : List Char} (numeral : Numeral.Shaped cs)
    (range : ∀ v : Int64, v.toInt ≠ Numeral.value cs) :
    classify cs = .error (.integerOutOfRange (String.ofList cs)) := by
  have none : Numeral.read? cs = none :=
    Option.eq_none_iff_forall_ne_some.mpr fun v h => range v (Numeral.read?_eq_some_iff.mp h)
  simp [classify, Numeral.isNumeral_iff.mpr numeral, none]

theorem classify_symbol {cs : List Char} (word : ¬ Numeral.Shaped cs) :
    classify cs = .ok (.symbol (String.ofList cs)) := by
  simp [classify, Numeral.isNumeral_eq_false_iff.mpr word]

/-- There is no line feed in a run. -/
theorem count_feed_run {before cs after : List Char} (run : IsRun before cs after) :
    cs.count '\n' = 0 :=
  List.count_eq_zero.mpr fun mem => absurd (run.inside '\n' mem) (by decide)

/-- The scanner finds what a lexeme means, and moves past the lexeme. -/
theorem next_lexes {before after cs : List Char} {r : Except ScanFault TokenKind}
    (h : Lexes before after cs r) (line : Nat) :
    next ⟨cs ++ after, line⟩ = (.ofResult line r, ⟨after, line + cs.count '\n'⟩) := by
  cases h with
  | leftParen | rightParen => exact next_start (by decide) (by decide) after line
  | @string cs inside =>
    have text : '"' :: (cs ++ ['"']) ++ after = '"' :: (cs ++ '"' :: after) := by simp
    have count : ('"' :: (cs ++ ['"'])).count '\n' = cs.count '\n' := by simp
    rw [text, count]
    exact next_string inside after line
  | @unclosed cs inside last =>
    subst last
    rw [List.append_nil, List.count_cons_of_ne (by decide)]
    exact next_unclosed inside line
  | integer run numeral value =>
    rw [next_atom run.some run.inside run.ends, classify_integer numeral value,
      count_feed_run run]
    rfl
  | outOfRange run numeral range =>
    rw [next_atom run.some run.inside run.ends, classify_outOfRange numeral range,
      count_feed_run run]
    rfl
  | symbol run word =>
    rw [next_atom run.some run.inside run.ends, classify_symbol word, count_feed_run run]
    rfl
  | eof last =>
    subst last
    rfl

/-- A run of characters has a meaning. -/
theorem exists_lexes_run {before cs after : List Char} (run : IsRun before cs after) :
    ∃ r, Lexes before after cs r := by
  by_cases numeral : Numeral.Shaped cs
  · cases h : Numeral.read? cs with
    | some v => exact ⟨_, .integer run numeral (Numeral.read?_eq_some_iff.mp h)⟩
    | none =>
      refine ⟨_, .outOfRange run numeral fun v value => ?_⟩
      rw [Numeral.read?_eq_some_iff.mpr value] at h
      cases h
  · exact ⟨_, .symbol run numeral⟩

/-- A text that begins with a quote begins with a string, closed or not. -/
theorem exists_lexes_string (before cs : List Char) :
    ∃ lexeme after r, '"' :: cs = lexeme ++ after ∧ Lexes before after lexeme r := by
  have cut := List.takeWhile_append_dropWhile (p := (· ≠ '"')) (l := cs)
  have inside : '"' ∉ cs.takeWhile (· ≠ '"') := fun mem =>
    absurd (List.all_eq_true.mp List.all_takeWhile _ mem) (by decide)
  cases closed : cs.dropWhile (· ≠ '"') with
  | nil =>
    rw [closed, List.append_nil] at cut
    rw [cut] at inside
    exact ⟨'"' :: cs, [], _, (List.append_nil _).symm, .unclosed inside rfl⟩
  | cons c rest =>
    have quote : c = '"' := by
      have head := List.head?_dropWhile_not (· ≠ '"') cs
      rw [closed] at head
      simpa using head
    rw [closed, quote] at cut
    refine ⟨_, rest, _, ?_, .string inside⟩
    rw [List.cons_append, List.append_assoc]
    exact congrArg ('"' :: ·) cut.symm

/-- A text begins with a lexeme, if no run of characters goes on into it. -/
theorem exists_lexes {before cs : List Char} {c : Char} (hb : isBlank c = false) (hs : c ≠ ';')
    (edge : Edge before (c :: cs)) :
    ∃ lexeme after r, c :: cs = lexeme ++ after ∧ Lexes before after lexeme r := by
  by_cases hl : c = '('
  · exact ⟨['('], cs, _, by rw [hl]; rfl, .leftParen⟩
  by_cases hr : c = ')'
  · exact ⟨[')'], cs, _, by rw [hr]; rfl, .rightParen⟩
  by_cases hq : c = '"'
  · rw [hq]
    exact exists_lexes_string before cs
  have hc : isDelimiter c = false := by simp [isDelimiter, hb, hl, hr, hq, hs]
  have starts : ∀ d ∈ before.getLast?, isDelimiter d = true := by
    rcases edge with starts | stops
    · exact starts
    · have := stops c rfl
      rw [hc] at this
      cases this
  have run : IsRun before ((c :: cs).takeWhile (!isDelimiter ·))
      ((c :: cs).dropWhile (!isDelimiter ·)) := by
    refine ⟨by simp [hc], ?_, starts, ?_⟩
    · intro d hd
      have inside := List.all_eq_true.mp List.all_takeWhile d hd
      simpa using inside
    · intro d hd
      have head := List.head?_dropWhile_not (!isDelimiter ·) (c :: cs)
      rw [Option.mem_def.mp hd] at head
      simpa using head
  obtain ⟨r, lexes⟩ := exists_lexes_run run
  exact ⟨_, _, r, List.takeWhile_append_dropWhile.symm, lexes⟩

/-- A token that can be written is what its text means, if the text of an atom does not run on. -/
theorem lexes_lexeme {k : TokenKind} (writable : k.Writable) {rest : List Char}
    (ends : k.isAtom = true → ∀ c ∈ rest.head?, isDelimiter c = true) :
    Lexes [] rest k.lexeme.toList (.ok k) := by
  cases k with
  | leftParen => exact .leftParen
  | rightParen => exact .rightParen
  | integer v =>
    have numeral := Numeral.isNumeral_iff.mp (Numeral.isNumeral_ofInt v.toInt)
    rw [TokenKind.lexeme, Numeral.ofWord, String.toList_ofList]
    exact .integer ⟨numeral.ne_nil, isDelimiter_ofInt _, by simp, ends rfl⟩ numeral (by simp)
  | string s =>
    have text : (TokenKind.string s).lexeme.toList = '"' :: (s.toList ++ ['"']) := by
      simp [TokenKind.lexeme]
    have string := @Lexes.string [] rest s.toList writable
    rw [String.ofList_toList] at string
    rw [text]
    exact string
  | symbol x =>
    obtain ⟨some, plain, word⟩ := isName_iff.mp writable
    have run : IsRun [] x.toList rest := ⟨some, plain, by simp, ends rfl⟩
    have symbol := Lexes.symbol run (Numeral.isNumeral_eq_false_iff.mp word)
    rw [String.ofList_toList] at symbol
    exact symbol
  | eof => exact absurd writable (by simp [TokenKind.Writable])

/-- A token is found where its text stands. The text of an atom must not run on. -/
theorem next_lexeme {k : TokenKind} (writable : k.Writable) {rest : List Char}
    (ends : k.isAtom = true → ∀ c ∈ rest.head?, isDelimiter c = true) (line : Nat) :
    ∃ line', next ⟨k.lexeme.toList ++ rest, line⟩ = (.ok ⟨k, line⟩, ⟨rest, line'⟩) :=
  ⟨_, next_lexes (lexes_lexeme writable ends) line⟩

end Scanner

/-- A lexeme has one meaning. -/
theorem Lexes.unique {before after cs : List Char} {r r' : Except ScanFault TokenKind}
    (h : Lexes before after cs r) (h' : Lexes before after cs r') : r = r' := by
  have same := (Scanner.next_lexes h 1).symm.trans (Scanner.next_lexes h' 1)
  have results := congrArg (fun look => look.1.result) same
  simpa using results

end Lisplet
