/-!
White space, and the lines of a text, each with the byte offset at which it starts.

White space is what the Unicode property `White_Space` has. This is wider than the ASCII blanks of
`Char.isWhitespace`: the no-break space, the ideographic space and the line and paragraph separators
are in it; the zero-width space and the byte-order mark are not.

Lines end at line feeds only, so a carriage return stays in its line. A final line feed opens no
further line, and every text has at least one line. The rows of a text are those that an editor
numbers. A row ends at any line break of Unicode: carriage return, vertical tab, form feed, next line,
line separator and paragraph separator end one too, and a carriage return with a line feed after it is
one break. So a line starts a row and may hold several of them.
-/
namespace Lisplet

/-- The character has the property `White_Space`. -/
def isBlank (c : Char) : Bool :=
  let n := c.toNat
  (0x9 ≤ n && n ≤ 0xD) || n == 0x20 || n == 0x85 || n == 0xA0 || n == 0x1680 ||
    (0x2000 ≤ n && n ≤ 0x200A) || n == 0x2028 || n == 0x2029 || n == 0x202F || n == 0x205F ||
    n == 0x3000

/-- Number of bytes of the characters in UTF-8. -/
def utf8Length : List Char → Nat
  | [] => 0
  | c :: cs => c.utf8Size + utf8Length cs

@[simp] theorem utf8Length_nil : utf8Length [] = 0 := rfl
@[simp] theorem utf8Length_cons (c : Char) (cs : List Char) :
    utf8Length (c :: cs) = c.utf8Size + utf8Length cs := rfl
@[simp] theorem utf8Length_append (as bs : List Char) :
    utf8Length (as ++ bs) = utf8Length as + utf8Length bs := by
  induction as with
  | nil => simp
  | cons a as ih => simp [ih, Nat.add_assoc]
@[simp] theorem utf8Length_reverse (cs : List Char) : utf8Length cs.reverse = utf8Length cs := by
  induction cs with
  | nil => rfl
  | cons c cs ih => simp [ih, Nat.add_comm]

/-- A line, without its line feed, and the byte offset of its first character. -/
structure Line where
  start : Nat
  text : List Char
  deriving DecidableEq, Repr

namespace Line

/-- The byte offset just after the line's last character. -/
def stop (l : Line) : Nat := l.start + utf8Length l.text

/-- Split `cs` into lines; `held` is what the current line, which starts at byte `start`, has so
far, last character first. -/
def splitFrom (start : Nat) (held : List Char) : List Char → List Line
  | [] => [⟨start, held.reverse⟩]
  | c :: cs =>
    if c = '\n' then
      ⟨start, held.reverse⟩ ::
        (if cs = [] then [] else splitFrom (start + utf8Length held + 1) [] cs)
    else splitFrom start (c :: held) cs

/-- The lines of a text, in order. -/
def split (text : String) : List Line := splitFrom 0 [] text.toList

/-- The line number nearest to `n` among the lines `1, …, ls.length`. -/
def nearest (ls : List Line) (n : Nat) : Nat := min (max n 1) ls.length

/-- The line with the number nearest to `n`. -/
def pick (ls : List Line) (n : Nat) : Line := ls.getD (nearest ls n - 1) ⟨0, []⟩

theorem splitFrom_ne_nil (start : Nat) (held cs : List Char) : splitFrom start held cs ≠ [] := by
  induction cs generalizing held with
  | nil => simp [splitFrom]
  | cons c cs ih =>
    rw [splitFrom]
    split
    · simp
    · exact ih (c :: held)

/-- Every text has a line. -/
theorem split_ne_nil (text : String) : split text ≠ [] := splitFrom_ne_nil 0 [] text.toList

end Line

/-- The character ends a row. -/
def isBreak (c : Char) : Bool :=
  c = '\n' || c = '\r' || c = '\x0b' || c = '\x0c' || c = '\u0085' || c = '\u2028' ||
    c = '\u2029'

/-- Number of line breaks in the text; of a carriage return and its line feed the latter counts. -/
def breaks : List Char → Nat
  | [] => 0
  | c :: cs =>
    if c = '\r' ∧ cs.head? = some '\n' then breaks cs
    else if isBreak c then breaks cs + 1
    else breaks cs

namespace Line

/-- The text up to the line with the number nearest to `n`. -/
def before (ls : List Line) (n : Nat) : List Char :=
  (ls.take (nearest ls n - 1)).flatMap fun l => l.text ++ ['\n']

/-- The number of the row that the line with the number nearest to `n` starts. -/
def row (ls : List Line) (n : Nat) : Nat := breaks (before ls n) + 1

end Line
end Lisplet
