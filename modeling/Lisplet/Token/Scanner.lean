import Lisplet.Text.Line
import Lisplet.Token.Basic
/-!
From text to tokens. A scanner holds the characters still to be read and the number of the line
they start on. Blanks separate tokens, and so do comments, which run from a semicolon to the end of
the line. A string runs to the next double quote, over line ends if need be, and has no escapes.
Every other run of characters is an atom: an integer if it is a decimal numeral, else a symbol.

An error does not stop the scanner: it consumes the faulty text and the next look goes on after it.
Once the text is used up, every further look gives the end again (`next_of_rest_nil`); before that,
every look consumes at least one character (`rest_next_lt`), so a text has finitely many readings.
-/
namespace Lisplet

structure Scanner where
  rest : List Char
  line : Nat
  deriving DecidableEq, Repr

namespace Scanner

/-- The scanner at the start of a text. -/
def ofText (text : String) : Scanner := ⟨text.toList, 1⟩

/-- The character ends an atom. -/
def isDelimiter (c : Char) : Bool :=
  isBlank c || c == '(' || c == ')' || c == '"' || c == ';'

/-- Skip blanks and comments; `inComment` tells whether the first character is inside a comment. -/
def skip (inComment : Bool) (line : Nat) : List Char → Scanner
  | [] => ⟨[], line⟩
  | c :: cs =>
    if c = '\n' then skip false (line + 1) cs
    else if inComment then skip true line cs
    else if c = ';' then skip true line cs
    else if isBlank c then skip false line cs
    else ⟨c :: cs, line⟩

/-- The string whose opening quote stands on `line`, with `cs` after that quote. -/
def scanString (line : Nat) (cs : List Char) : Reading × Scanner :=
  let body := cs.takeWhile (· ≠ '"')
  let after := line + body.count '\n'
  match cs.dropWhile (· ≠ '"') with
  | [] => (.error ⟨.unclosedString, line⟩, ⟨[], after⟩)
  | _ :: rest => (.ok ⟨.string (String.ofList body), line⟩, ⟨rest, after⟩)

/-- The token that an atom stands for. -/
def classify (atom : List Char) : Except ScanFault TokenKind :=
  if Numeral.isNumeral atom then
    match Numeral.read? atom with
    | some v => .ok (.integer v)
    | none => .error (.integerOutOfRange (String.ofList atom))
  else .ok (.symbol (String.ofList atom))

/-- The atom that `cs` begins with. -/
def scanAtom (line : Nat) (cs : List Char) : Reading × Scanner :=
  let after := ⟨cs.dropWhile (!isDelimiter ·), line⟩
  match classify (cs.takeWhile (!isDelimiter ·)) with
  | .ok kind => (.ok ⟨kind, line⟩, after)
  | .error fault => (.error ⟨fault, line⟩, after)

/-- The token that begins with the non-blank character `c` before `cs`. -/
def scan (line : Nat) (c : Char) (cs : List Char) : Reading × Scanner :=
  if c = '(' then (.ok ⟨.leftParen, line⟩, ⟨cs, line⟩)
  else if c = ')' then (.ok ⟨.rightParen, line⟩, ⟨cs, line⟩)
  else if c = '"' then scanString line cs
  else scanAtom line (c :: cs)

/-- Look at the next token and move past it. -/
def next (s : Scanner) : Reading × Scanner :=
  match skip false s.line s.rest with
  | ⟨[], line⟩ => (.ok ⟨.eof, line⟩, ⟨[], line⟩)
  | ⟨c :: cs, line⟩ => scan line c cs

theorem rest_skip_le (b : Bool) (line : Nat) (cs : List Char) :
    (skip b line cs).rest.length ≤ cs.length := by
  induction cs generalizing b line with
  | nil => simp [skip]
  | cons c cs ih =>
    simp only [skip]
    have step := fun b line => Nat.le_succ_of_le (ih b line)
    split
    · exact step _ _
    split
    · exact step _ _
    split
    · exact step _ _
    split
    · exact step _ _
    · exact Nat.le_refl _

/-- Skipping stops at the end or before a character that is neither blank nor a semicolon. -/
theorem head_skip {b : Bool} {line : Nat} {cs : List Char} {c : Char} {rest : List Char}
    (h : (skip b line cs).rest = c :: rest) : isBlank c = false ∧ c ≠ ';' := by
  induction cs generalizing b line with
  | nil => simp [skip] at h
  | cons d cs ih =>
    simp only [skip] at h
    split at h
    · exact ih h
    split at h
    · exact ih h
    split at h
    · exact ih h
    split at h
    · exact ih h
    · next hc hb =>
      obtain ⟨rfl, -⟩ := List.cons.inj h
      exact ⟨by simpa using hb, hc⟩

theorem length_dropWhile_le (p : Char → Bool) (cs : List Char) :
    (cs.dropWhile p).length ≤ cs.length :=
  (List.dropWhile_sublist p).length_le

theorem rest_scanString_le (line : Nat) (cs : List Char) :
    (scanString line cs).2.rest.length ≤ cs.length := by
  have h := length_dropWhile_le (· ≠ '"') cs
  simp only [scanString]
  split
  · simp
  · next heq => rw [heq] at h; simp at h ⊢; omega

theorem rest_scanAtom_lt (line : Nat) {c : Char} (cs : List Char) (hc : isDelimiter c = false) :
    (scanAtom line (c :: cs)).2.rest.length < (c :: cs).length := by
  have h := length_dropWhile_le (!isDelimiter ·) cs
  simp only [scanAtom, List.dropWhile_cons, hc]
  split <;> simp only [List.length_cons, Bool.not_false, if_true] <;> omega

/-- A token takes at least its first character. -/
theorem rest_scan_lt (line : Nat) {c : Char} (cs : List Char) (hb : isBlank c = false)
    (hs : c ≠ ';') : (scan line c cs).2.rest.length < (c :: cs).length := by
  unfold scan
  split
  · simp
  split
  · simp
  split
  · exact Nat.lt_succ_of_le (rest_scanString_le line cs)
  · exact rest_scanAtom_lt line cs (by simp [isDelimiter, *])

/-- Every look that does not find the end consumes at least one character. -/
theorem rest_next_lt {s : Scanner} (h : s.next.1.isEnd = false) :
    s.next.2.rest.length < s.rest.length := by
  unfold next at h ⊢
  have hle := rest_skip_le false s.line s.rest
  split at h
  · simp at h
  · next c cs line heq =>
    rw [heq] at hle
    have hc := head_skip (by rw [heq])
    exact Nat.lt_of_lt_of_le (rest_scan_lt line cs hc.1 hc.2) hle

/-- No look gives characters back. -/
theorem rest_next_le (s : Scanner) : s.next.2.rest.length ≤ s.rest.length := by
  unfold next
  have hle := rest_skip_le false s.line s.rest
  split
  · simp
  · next c cs line heq =>
    rw [heq] at hle
    have hc := head_skip (by rw [heq])
    exact Nat.le_of_lt (Nat.lt_of_lt_of_le (rest_scan_lt line cs hc.1 hc.2) hle)

/-- At the end of the text the scanner stays where it is. -/
theorem next_of_rest_nil (line : Nat) :
    next ⟨[], line⟩ = (.ok ⟨.eof, line⟩, ⟨[], line⟩) := rfl

/-- All readings of the text, the end included. -/
def readings (s : Scanner) : List Reading :=
  if _ended : s.next.1.isEnd then [s.next.1] else s.next.1 :: readings s.next.2
termination_by s.rest.length
decreasing_by exact rest_next_lt (by simpa using _ended)

end Scanner
end Lisplet
