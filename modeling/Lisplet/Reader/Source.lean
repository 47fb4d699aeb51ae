import Lisplet.Token.Scanner
/-!
Where a reader's tokens come from. A source can be looked at without being moved, and moved by one
reading; it never runs dry, since the end of the text can be read over and over.

Two sources are given. A `Lookahead` scans its text on demand and holds at most one reading that
has been looked at but not taken. A `Cursor` walks over a list of readings made beforehand.
-/
namespace Lisplet

class TokenSource (σ : Type) where
  /-- Look at the next reading. -/
  peek : σ → Reading × σ
  /-- Take the next reading. -/
  next : σ → Reading × σ
  /-- A bound on how many readings come before the end. -/
  remaining : σ → Nat
  /-- Looking again changes nothing. -/
  peek_peek : ∀ s, peek (peek s).2 = peek s
  remaining_peek_le : ∀ s, remaining (peek s).2 ≤ remaining s
  remaining_next_lt : ∀ s, (peek s).1.isEnd = false → remaining (next (peek s).2).2 < remaining s

/-- A scanner with the reading that has been looked at, if any. -/
structure Lookahead where
  held : Option Reading
  scanner : Scanner

namespace Lookahead

def ofText (text : String) : Lookahead := ⟨none, .ofText text⟩

def next (s : Lookahead) : Reading × Lookahead :=
  match s.held with
  | some r => (r, ⟨none, s.scanner⟩)
  | none => let (r, scanner) := s.scanner.next; (r, ⟨none, scanner⟩)

/-- Looking is taking and holding on to what was taken. -/
def peek (s : Lookahead) : Reading × Lookahead :=
  let (r, s') := s.next
  (r, { s' with held := some r })

/-- The characters still to be scanned, and one for a held reading that is not the end. -/
def remaining (s : Lookahead) : Nat :=
  s.scanner.rest.length + match s.held with
    | some r => if r.isEnd then 0 else 1
    | none => 0

instance : TokenSource Lookahead where
  peek := peek
  next := next
  remaining := remaining
  peek_peek s := by
    rcases s with ⟨_ | r, scanner⟩ <;> rfl
  remaining_peek_le s := by
    rcases s with ⟨_ | r, scanner⟩
    · simp only [peek, next, remaining, Nat.add_zero]
      split
      · exact Scanner.rest_next_le scanner
      · next h => exact Scanner.rest_next_lt (by simpa using h)
    · exact Nat.le_refl _
  remaining_next_lt s h := by
    rcases s with ⟨_ | r, scanner⟩
    · exact Scanner.rest_next_lt h
    · have h : r.isEnd = false := h
      simp [peek, next, remaining, h]

end Lookahead

/-- Readings made beforehand; behind them, the end of the text is on line `last`. -/
structure Cursor where
  readings : List Reading
  last : Nat

namespace Cursor

def next : Cursor → Reading × Cursor
  | ⟨[], last⟩ => (.ok ⟨.eof, last⟩, ⟨[], last⟩)
  | ⟨r :: rs, last⟩ => (r, ⟨rs, last⟩)

def peek (s : Cursor) : Reading × Cursor := (s.next.1, s)

instance : TokenSource Cursor where
  peek := peek
  next := next
  remaining s := s.readings.length
  peek_peek _ := rfl
  remaining_peek_le _ := Nat.le_refl _
  remaining_next_lt s h := by
    rcases s with ⟨_ | ⟨r, rs⟩, last⟩
    · simp [peek, next] at h
    · exact Nat.lt_succ_self _

end Cursor
end Lisplet
