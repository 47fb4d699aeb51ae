import Lisplet.Proofs.Reader.Acceptance
import Lisplet.Proofs.Reader.Requests
import Lisplet.Proofs.Token.Rounds
/-!
The listing of tokens ends. It looks again and again, errors or not, and only the end of the text makes
it stop. It does stop, because every look takes a character off the text until there is none left
(`length_readings_le`). From then on each look finds the end, on the same line (`Scans.next_after`);
and since a string without its closing quote takes all that is left, nothing but the end comes behind
it (`eq_end_of_unclosed`).

The loop is told round by round, as is each look inside it (`lookRound`). It has as many rounds as the
text has readings: not fewer (`iterate_listRound_lt`) and not more (`iterate_listRound`).
-/
namespace Lisplet

/-! What one look after the other finds. -/

/-- A string without its closing quote goes on to the end of the text. -/
theorem Lexes.after_of_unclosed {before after cs : List Char}
    (h : Lexes before after cs (.error .unclosedString)) : after = [] := by
  cases h with
  | unclosed _ last => exact last

/-- Behind its readings a cursor has the end for ever. -/
theorem Cursor.nth_of_length_le {c : Cursor} {n : Nat} (h : c.readings.length ≤ n) :
    c.nth n = .ok ⟨.eof, c.last⟩ := by
  rw [nth, List.getD_eq_getElem?_getD, List.getElem?_eq_none h, Option.getD_none]

namespace Scanner

theorem Scans.next {s : Scanner} {c : Cursor} (h : s.Scans c) :
    s.next.1 = c.next.1 ∧ s.next.2.Scans c.next.2 :=
  Lookahead.Shows.next (s := ⟨none, s⟩) h

/-- Scanner and cursor stay together. -/
theorem Scans.after {s : Scanner} {c : Cursor} {k : Nat} (h : s.Scans (c.advance k)) (n : Nat) :
    (s.after n).Scans (c.advance (k + n)) := by
  induction n generalizing s k with
  | zero => exact h
  | succ n ih =>
    have later := h.next.2
    rw [c.next_advance] at later
    have place : k + (n + 1) = k + 1 + n := by omega
    rw [place]
    exact ih later

/-- Each look gives the next of the readings, and the end once there are no more. -/
theorem Scans.next_after {s : Scanner} {c : Cursor} (h : s.Scans c) (n : Nat) :
    (s.after n).next.1 = c.nth n := by
  have there := Scans.after (k := 0) h n
  rw [Nat.zero_add] at there
  rw [there.next.1, c.next_advance]

/-- The readings are those of one look after the other. -/
theorem readings_eq_map (s : Scanner) :
    s.readings = (List.range s.readings.length).map fun k => (s.after k).next.1 := by
  fun_induction readings s with
  | case1 s ended => rfl
  | case2 s more ih =>
    rw [List.length_cons, List.range_succ_eq_map, List.map_cons, List.map_map]
    exact congrArg (s.next.1 :: ·) ih

/-- There is a reading for each character at most, and the end. -/
theorem length_readings_le (s : Scanner) : s.readings.length ≤ s.rest.length + 1 := by
  fun_induction readings s with
  | case1 s ended => simp
  | case2 s more ih =>
    have fewer := rest_next_lt (by simpa using more)
    rw [List.length_cons]
    omega

/-- A string without its closing quote leaves nothing of the text. -/
theorem rest_of_unclosed {s : Scanner} {line : Nat}
    (h : s.next.1 = .error ⟨.unclosedString, line⟩) : s.next.2.rest = [] := by
  have lexes := s.lexes_piece (edge_start _)
  rw [h] at lexes
  exact lexes.after_of_unclosed

/-- Only the end comes behind a string without its closing quote. -/
theorem eq_end_of_unclosed {s : Scanner} {front back : List Reading} {line : Nat}
    (h : s.readings = front ++ .error ⟨.unclosedString, line⟩ :: back) :
    ∃ last, back = [.ok ⟨.eof, last⟩] := by
  fun_induction readings s generalizing front with
  | case1 s ended =>
    -- the one reading that there is would be the end and no fault
    cases front with
    | nil =>
      rw [(List.cons.inj h).1] at ended
      cases ended
    | cons r front => simp at h
  | case2 s more ih =>
    cases front with
    | nil =>
      obtain ⟨first, later⟩ := List.cons.inj h
      have none := rest_of_unclosed first
      rcases left : s.next.2 with ⟨cs, last⟩
      rw [left] at none later
      obtain rfl : cs = [] := none
      exact ⟨last, later.symm.trans (readings_of_isEnd rfl)⟩
    | cons r front => exact ih (List.cons.inj h).2

end Scanner

/-! The listing, round by round. -/

namespace Outcome

/-- The outcome when one more reading has been listed. A faulty piece makes the program a bad one. -/
def list (format : TokenFormat) (o : Outcome) (r : Reading) : Outcome :=
  match r with
  | .ok _ => { o with stdout := o.stdout ++ (r.format format ++ "\n") }
  | .error _ =>
    { o with status := .badProgram, stderr := o.stderr ++ (r.format format ++ "\n") }

/-- One round of the listing, which looks by `look`; `again` does the rounds after it. -/
def listRound (look : Scanner → Reading × Scanner) (format : TokenFormat)
    (again : Outcome → Scanner → Outcome) (o : Outcome) (s : Scanner) : Outcome :=
  if (look s).1.isEnd then o.list format (look s).1
  else again (o.list format (look s).1) (look s).2

theorem foldl_list (format : TokenFormat) (o : Outcome) (rs : List Reading) :
    rs.foldl (list format) o =
      { status := if rs.all Reading.isOk then o.status else .badProgram
        stdout := o.stdout ++ lines ((rs.filter Reading.isOk).map (Reading.format format))
        stderr := o.stderr ++ lines ((rs.filter (!Reading.isOk ·)).map (Reading.format format)) } := by
  induction rs generalizing o with
  | nil => simp [lines]
  | cons r rs ih =>
    rw [List.foldl_cons, ih]
    cases r <;> simp [list, lines, List.filter_cons, Reading.isOk, String.append_assoc]

theorem tokenize_eq_foldl (format : TokenFormat) (source : String) :
    tokenize format source =
      (Scanner.ofText source).readings.foldl (list format) ⟨.success, "", ""⟩ := by
  rw [foldl_list]
  simp [tokenize]

section
variable {look : Scanner → Reading × Scanner} {s : Scanner}
  (looks : ∀ s' : Scanner, s'.rest.length ≤ s.rest.length → look s' = s'.next)
include looks

/-- As long as there are further readings, the listing goes on. -/
theorem iterate_listRound_lt (format : TokenFormat) {m : Nat} (bound : m < s.readings.length)
    (later : Outcome → Scanner → Outcome) (o : Outcome) :
    (listRound look format)^[m] later o s =
      later ((s.readings.take m).foldl (list format) o) (s.after m) := by
  induction m generalizing s o with
  | zero => rfl
  | succ m ih =>
    have here := looks s (Nat.le_refl _)
    cases ended : s.next.1.isEnd with
    | true =>
      rw [Scanner.readings_of_isEnd ended, List.length_singleton] at bound
      omega
    | false =>
      rw [Scanner.readings_of_not_isEnd ended, List.length_cons] at bound
      have looks' : ∀ s' : Scanner, s'.rest.length ≤ s.next.2.rest.length → look s' = s'.next :=
        fun s' le => looks s' (Nat.le_trans le s.rest_next_le)
      rw [Function.iterate_succ_apply', listRound, here, ended, if_neg Bool.false_ne_true,
        ih looks' (by omega), Scanner.readings_of_not_isEnd ended]
      rfl

/-- With the last of the readings the listing is done. -/
theorem iterate_listRound (format : TokenFormat) {m : Nat} (bound : s.readings.length ≤ m)
    (later : Outcome → Scanner → Outcome) (o : Outcome) :
    (listRound look format)^[m] later o s = s.readings.foldl (list format) o := by
  obtain ⟨c, scans⟩ := s.exists_scans
  have all : s.readings = c.readings ++ [.ok ⟨.eof, c.last⟩] := scans
  have size : s.readings.length = c.readings.length + 1 := by simp [all]
  have front : s.readings.take c.readings.length = c.readings := by simp [all]
  have last : (s.after c.readings.length).next.1 = .ok ⟨.eof, c.last⟩ :=
    (scans.next_after _).trans (Cursor.nth_of_length_le (Nat.le_refl _))
  have here : look (s.after c.readings.length) = (s.after c.readings.length).next := by
    refine looks _ ?_
    rw [s.rest_eq_passed c.readings.length, List.length_append]
    omega
  obtain ⟨j, rfl⟩ : ∃ j, m = c.readings.length + (j + 1) :=
    ⟨m - c.readings.length - 1, by omega⟩
  calc (listRound look format)^[c.readings.length + (j + 1)] later o s
      = (listRound look format)^[c.readings.length] ((listRound look format)^[j + 1] later) o s := by
        rw [Function.iterate_add_apply]
    _ = listRound look format ((listRound look format)^[j] later)
          (c.readings.foldl (list format) o) (s.after c.readings.length) := by
        rw [iterate_listRound_lt looks format (by omega), front, Function.iterate_succ_apply']
    _ = (c.readings.foldl (list format) o).list format (.ok ⟨.eof, c.last⟩) := by
        rw [listRound, here, last]
        rfl
    _ = s.readings.foldl (list format) o := by
        rw [all, List.foldl_append]
        rfl

end
end Outcome

open Scanner Outcome

/-- The listing of tokens ends, whatever the text. Each look, however many there have been, is over
after at most one round more than it takes characters, and it does take some unless it finds the end.
The listing has a round for each of the readings, which are those of one look after the other: it goes
on until the last of them, errors or not, and with that it is done. There are at most as many as
characters and one more. The last one is the end, and no other is. Behind a string without its closing
quote there is only the end. And any further look finds the end again, on the same line. -/
theorem listing_ends (text : String) :
    let s := Scanner.ofText text
    let last : Reading := .ok ⟨.eof, 1 + text.toList.count '\n'⟩
    let nothing : Outcome := ⟨.success, "", ""⟩
    (∀ k, (s.after k).rest = (s.after k).piece.chars ++ (s.after k).next.2.rest ∧
      ((s.after k).next.1.isEnd = false → (s.after k).piece.chars ≠ []) ∧
      ∀ n, (s.after k).piece.chars.length < n → ∀ further,
        lookRound^[n] further .gap (s.after k) = (s.after k).next) ∧
    (∀ n, text.length < n → ∀ further format later,
      let listing := listRound (lookRound^[n] further .gap) format
      (∀ m, m < s.readings.length → listing^[m] later nothing s =
        later ((s.readings.take m).foldl (list format) nothing) (s.after m)) ∧
      ∀ m, s.readings.length ≤ m → listing^[m] later nothing s = tokenize format text) ∧
    s.readings = (List.range s.readings.length).map (fun k => (s.after k).next.1) ∧
    s.readings.length ≤ text.length + 1 ∧
    (∃ front, s.readings = front ++ [last] ∧ ∀ r ∈ front, r.isEnd = false) ∧
    (∀ front line back, s.readings = front ++ .error ⟨.unclosedString, line⟩ :: back →
      back = [last]) ∧
    ∀ k, s.readings.length ≤ k + 1 → (s.after k).next.1 = last := by
  intro s last nothing
  obtain ⟨c, scans⟩ := s.exists_scans
  have all : s.readings = c.readings ++ [.ok ⟨.eof, c.last⟩] := scans
  have line : Except.ok ⟨.eof, c.last⟩ = last := by rw [scans.last_eq]; rfl
  have size : s.rest.length = text.length := String.length_toList
  rw [line] at all
  refine ⟨?_, ?_, s.readings_eq_map, ?_, ⟨c.readings, all, scans.not_isEnd⟩, ?_, ?_⟩
  · intro k
    refine ⟨(s.after k).rest_eq_chars, ?_, fun n bound => (s.after k).next_eq_iterate bound⟩
    intro more
    obtain ⟨d, ds, lexeme, -⟩ := exists_lexeme_piece more
    simp [Piece.chars, lexeme]
  · intro n bound further format later listing
    have looks : ∀ s' : Scanner, s'.rest.length ≤ s.rest.length →
        lookRound^[n] further .gap s' = s'.next := by
      intro s' le
      refine s'.next_eq_iterate ?_ further
      rw [s'.rest_eq_chars, List.length_append] at le
      omega
    refine ⟨fun m fewer => iterate_listRound_lt looks format fewer later _, ?_⟩
    intro m enough
    rw [tokenize_eq_foldl]
    exact iterate_listRound looks format enough later _
  · rw [← size]
    exact s.length_readings_le
  · intro front start back split
    obtain ⟨line', rfl⟩ := eq_end_of_unclosed split
    have ends : c.readings ++ [last] = front ++ [.error ⟨.unclosedString, start⟩] ++
        [.ok ⟨.eof, line'⟩] := by
      rw [← all, split, List.append_assoc]
      rfl
    exact (List.append_inj' ends rfl).2.symm
  · intro k beyond
    rw [all, List.length_append, List.length_singleton] at beyond
    rw [scans.next_after, Cursor.nth_of_length_le (by omega), line]

/-- A numeral that is too large and, behind a comment, a string that is not closed. The listing goes on
past both and is done after four rounds. The third look takes the seven characters that are left, and
from then on there is only the end. -/
theorem listing_ends_past_faults :
    let text := "x 9223372036854775808 ;c\n\"ab"
    let s := Scanner.ofText text
    s.readings.length = 4 ∧ (s.after 1).piece.chars ≠ [] ∧
      (∀ further, lookRound^[8] further .gap (s.after 2) =
        (.error ⟨.unclosedString, 2⟩, ⟨[], 2⟩)) ∧
      (∀ further format later, (listRound (lookRound^[29] further .gap) format)^[4] later
        ⟨.success, "", ""⟩ s = tokenize format text) ∧
      [(s.after 3).next.1] = [.ok ⟨.eof, 2⟩] ∧ (s.after 9).next.1 = .ok ⟨.eof, 2⟩ := by
  intro text s
  have size : s.readings.length = 4 := by decide +kernel
  have more : (s.after 1).next.1.isEnd = false := by decide +kernel
  have there : s.after 2 = ⟨[' ', ';', 'c', '\n', '"', 'a', 'b'], 1⟩ := by decide +kernel
  have chars : (s.after 2).piece.chars.length = 7 := by rw [there]; decide
  have third : (s.after 2).next = (.error ⟨.unclosedString, 2⟩, ⟨[], 2⟩) := by rw [there]; rfl
  have feeds : 1 + text.toList.count '\n' = 2 := by decide +kernel
  obtain ⟨looks, rounds, calls, -, -, unclosed, beyond⟩ := listing_ends text
  have split : s.readings = [(s.after 0).next.1, (s.after 1).next.1] ++
      .error ⟨.unclosedString, 2⟩ :: [(s.after 3).next.1] := by
    have four : s.readings = (List.range s.readings.length).map fun k => (s.after k).next.1 := calls
    have fault : (s.after 2).next.1 = .error ⟨.unclosedString, 2⟩ := by rw [third]
    rw [size] at four
    rw [← fault]
    exact four
  rw [feeds] at unclosed beyond
  refine ⟨size, (looks 1).2.1 more, ?_, ?_, unclosed _ _ _ split,
    beyond 9 (Nat.le_trans (Nat.le_of_eq size) (by decide))⟩
  · intro further
    rw [← third]
    exact (looks 2).2.2 8 (Nat.lt_of_le_of_lt (Nat.le_of_eq chars) (by decide)) further
  · intro further format later
    exact (rounds 29 (by decide +kernel) further format later).2 4 (Nat.le_of_eq size)

end Lisplet
