import Mathlib.Data.List.Chain
import Lisplet.Proofs.Text.Utf8
/-!
Lines and bytes. The lines of a text are told by their offsets, which count bytes in UTF-8, and a
line feed is the byte 10. No other character has this byte in it (`ten_mem_bytesOf_iff`), so the
bytes are cut at tens where the characters are cut at line feeds, and no line begins or ends within
a character.

What splitting gives is said once (`Tiles`, `tiles_split`). From that follow where each line stands
in the text (`Tiles.stands`), that each begins one byte after the end of the one before it
(`Tiles.chain`), where the last one ends (`Tiles.ends`) and that nothing is lost (`Tiles.join`).
-/
namespace Lisplet

/-- What a text that ends in `feed` has after its last line. -/
def finalFeed {α : Type} [DecidableEq α] (feed : α) (xs : List α) : List α :=
  if xs.getLast? = some feed then [feed] else []

section
variable {α : Type} [DecidableEq α] {feed : α} {xs ys : List α}

theorem finalFeed_of_not_mem (plain : feed ∉ xs) : finalFeed feed xs = [] :=
  if_neg fun last => plain (List.mem_of_getLast? last)

theorem finalFeed_concat : finalFeed feed (xs ++ [feed]) = [feed] := if_pos List.getLast?_concat

theorem finalFeed_append_cons {x : α} (more : ys ≠ []) :
    finalFeed feed (xs ++ x :: ys) = finalFeed feed ys := by
  rw [finalFeed, finalFeed, List.getLast?_append_of_ne_nil _ (List.cons_ne_nil _ _),
    List.getLast?_cons_of_ne_nil more]

end

/-- A text ends in a line feed if its bytes end in a ten. -/
theorem bytesOf_finalFeed (cs : List Char) :
    bytesOf (finalFeed '\n' cs) = finalFeed 10 (bytesOf cs) := by
  rcases List.eq_nil_or_concat cs with rfl | ⟨init, c, rfl⟩
  · rfl
  · rw [List.concat_eq_append, finalFeed, finalFeed, List.getLast?_concat, bytesOf_append]
    by_cases feed : c = '\n'
    · subst feed
      rw [bytesOf_feed, List.getLast?_concat, if_pos rfl, if_pos rfl]
      rfl
    · have other : (bytesOf init ++ bytesOf [c]).getLast? ≠ some 10 := by
        intro last
        have bytes : bytesOf [c] ≠ [] := by simp [bytesOf]
        rw [List.getLast?_append_of_ne_nil _ bytes] at last
        have mem := ten_mem_bytesOf_iff.mp (List.mem_of_getLast? last)
        exact feed (List.mem_singleton.mp mem).symm
      rw [if_neg (by simpa using feed), if_neg other]
      rfl

theorem bytesOf_intercalate (parts : List (List Char)) :
    bytesOf (['\n'].intercalate parts) = [10].intercalate (parts.map bytesOf) := by
  induction parts with
  | nil => rfl
  | cons part parts ih =>
    cases parts with
    | nil => simp
    | cons second parts =>
      rw [List.intercalate_cons_cons, bytesOf_append, bytesOf_append, ih, bytesOf_feed]
      simp only [List.map_cons, List.intercalate_cons_cons]

/-! Splitting. -/

namespace Line

/-- The lines of characters of which the first has the byte offset `start`. A line is what comes
before a line feed or before the end, and a final line feed has no line behind it. -/
inductive Tiles : Nat → List Char → List Line → Prop where
  | last {start : Nat} {cs : List Char} (plain : '\n' ∉ cs) : Tiles start cs [⟨start, cs⟩]
  | closed {start : Nat} {cs : List Char} (plain : '\n' ∉ cs) :
      Tiles start (cs ++ ['\n']) [⟨start, cs⟩]
  | next {start : Nat} {cs rest : List Char} {ls : List Line} (plain : '\n' ∉ cs) (more : rest ≠ [])
      (tail : Tiles (start + utf8Length cs + 1) rest ls) :
      Tiles start (cs ++ '\n' :: rest) (⟨start, cs⟩ :: ls)

theorem tiles_splitFrom (start : Nat) {held : List Char} (plain : '\n' ∉ held) (cs : List Char) :
    Tiles start (held.reverse ++ cs) (splitFrom start held cs) := by
  induction cs generalizing start held with
  | nil =>
    rw [List.append_nil]
    exact .last (by simpa using plain)
  | cons c cs ih =>
    rw [splitFrom]
    by_cases feed : c = '\n'
    · subst feed
      rw [if_pos rfl]
      by_cases ended : cs = []
      · subst ended
        rw [if_pos rfl]
        exact .closed (by simpa using plain)
      · rw [if_neg ended]
        have tail := ih (start + utf8Length held + 1) List.not_mem_nil
        rw [← utf8Length_reverse held] at tail
        rw [← utf8Length_reverse held]
        exact .next (by simpa using plain) ended tail
    · rw [if_neg feed]
      have longer : '\n' ∉ c :: held := by simp [plain, Ne.symm feed]
      have tiles := ih start longer
      rwa [List.reverse_cons, List.append_assoc, List.singleton_append] at tiles

theorem tiles_split (text : String) : Tiles 0 text.toList (split text) :=
  tiles_splitFrom 0 List.not_mem_nil text.toList

/-- The line stands in characters of which the first has the byte offset `start`: it has no line
feed in it, and either a line feed or nothing behind it. -/
structure Stands (start : Nat) (cs : List Char) (l : Line) (front back : List Char) : Prop where
  text : cs = front ++ (l.text ++ back)
  start : l.start = start + utf8Length front
  plain : '\n' ∉ l.text
  stops : ∀ c ∈ back.head?, c = '\n'

namespace Tiles

variable {start : Nat} {cs : List Char} {ls : List Line}

theorem first (tiles : Tiles start cs ls) : ∃ l ∈ ls.head?, l.start = start := by
  cases tiles with
  | last | closed | next => exact ⟨_, rfl, rfl⟩

theorem chain (tiles : Tiles start cs ls) : ls.IsChain fun a b => b.start = a.stop + 1 := by
  induction tiles with
  | last | closed => exact .singleton _
  | next _ _ tail ih =>
    refine List.isChain_cons.mpr ⟨?_, ih⟩
    intro b second
    obtain ⟨l, hl, begins⟩ := tail.first
    obtain rfl : l = b := Option.some.inj (hl.symm.trans second)
    exact begins

theorem stands (tiles : Tiles start cs ls) {l : Line} (mem : l ∈ ls) :
    ∃ front back, l.Stands start cs front back := by
  induction tiles with
  | @last start cs plain =>
    obtain rfl := List.mem_singleton.mp mem
    exact ⟨[], [], by simp, by simp, plain, by simp⟩
  | @closed start cs plain =>
    obtain rfl := List.mem_singleton.mp mem
    exact ⟨[], ['\n'], by simp, by simp, plain, by simp⟩
  | @next start cs rest ls plain more tail ih =>
    rcases List.mem_cons.mp mem with rfl | later
    · exact ⟨[], '\n' :: rest, by simp, by simp, plain, by simp⟩
    · obtain ⟨front, back, stands⟩ := ih later
      refine ⟨cs ++ '\n' :: front, back, ?_, ?_, stands.plain, stands.stops⟩
      · rw [stands.text]
        simp
      · have size : '\n'.utf8Size = 1 := rfl
        rw [stands.start, utf8Length_append, utf8Length_cons, size]
        omega

/-- The end of the text is where the last line ends, or one byte behind it. -/
theorem ends (tiles : Tiles start cs ls) : ∃ l ∈ ls.getLast?,
    l.stop + (finalFeed '\n' cs).length = start + utf8Length cs := by
  induction tiles with
  | @last start cs plain =>
    exact ⟨_, rfl, by rw [finalFeed_of_not_mem plain]; rfl⟩
  | @closed start cs plain =>
    refine ⟨_, rfl, ?_⟩
    rw [finalFeed_concat, utf8Length_append, ← Nat.add_assoc]
    rfl
  | @next start cs rest ls plain more tail ih =>
    obtain ⟨l, hl, stop⟩ := ih
    refine ⟨l, ?_, ?_⟩
    · rw [List.getLast?_cons, Option.mem_def.mp hl]
      rfl
    · have size : '\n'.utf8Size = 1 := rfl
      rw [finalFeed_append_cons more, stop, utf8Length_append, utf8Length_cons, size]
      omega

theorem join (tiles : Tiles start cs ls) :
    ['\n'].intercalate (ls.map (·.text)) ++ finalFeed '\n' cs = cs := by
  induction tiles with
  | last plain => simp [finalFeed_of_not_mem plain]
  | closed plain => simp [finalFeed_concat]
  | @next start cs rest ls plain more tail ih =>
    have lines : ls.map (·.text) ≠ [] := by
      obtain ⟨l, hl, -⟩ := tail.first
      exact List.ne_nil_of_mem (List.mem_map_of_mem (List.mem_of_mem_head? hl))
    rw [List.map_cons, List.intercalate_cons_of_ne_nil lines, finalFeed_append_cons more,
      List.append_assoc, ih, List.append_assoc]
    rfl

end Tiles

/-- The bytes of the text that are in the line. -/
def slice (text : String) (l : Line) : List UInt8 := (utf8Bytes text).extract l.start l.stop

namespace Stands

variable {text : String} {l : Line} {front back : List Char}

theorem bytes (stands : l.Stands 0 text.toList front back) :
    utf8Bytes text = bytesOf front ++ (bytesOf l.text ++ bytesOf back) := by
  rw [utf8Bytes_eq_bytesOf, stands.text, bytesOf_append, bytesOf_append]

theorem stop_eq (stands : l.Stands 0 text.toList front back) :
    l.stop = utf8Length front + utf8Length l.text := by
  rw [stop, stands.start, Nat.zero_add]

theorem slice_eq (stands : l.Stands 0 text.toList front back) : l.slice text = bytesOf l.text := by
  have start : l.start = (bytesOf front).length := by rw [stands.start, length_bytesOf, Nat.zero_add]
  have size : l.stop - l.start = (bytesOf l.text).length := by
    rw [stop, Nat.add_sub_cancel_left, length_bytesOf]
  rw [slice, List.extract, stands.bytes, size, start, List.drop_left, List.take_left]

/-- Behind the line is a line feed, if there is anything. -/
theorem feed_behind (stands : l.Stands 0 text.toList front back)
    (more : l.stop < (utf8Bytes text).length) : (utf8Bytes text)[l.stop]? = some 10 := by
  have stop : l.stop = (bytesOf front ++ bytesOf l.text).length := by
    rw [stands.stop_eq, List.length_append, length_bytesOf, length_bytesOf]
  rw [stands.bytes, ← List.append_assoc] at more ⊢
  rw [stop, List.getElem?_append_right (Nat.le_refl _), Nat.sub_self]
  cases back with
  | nil => simp [stop] at more
  | cons c back =>
    obtain rfl : c = '\n' := stands.stops c rfl
    rfl

theorem boundaries (stands : l.Stands 0 text.toList front back) :
    (⟨l.start⟩ : String.Pos.Raw).IsValid text ∧ (⟨l.stop⟩ : String.Pos.Raw).IsValid text := by
  constructor
  · rw [stands.start, Nat.zero_add]
    exact isValid_utf8Length stands.text
  · rw [stands.stop_eq, ← utf8Length_append]
    exact isValid_utf8Length (stands.text.trans (List.append_assoc _ _ _).symm)

end Stands

/-- The first line ends before the second one begins. -/
def Before (a b : Line) : Prop := a.stop < b.start

theorem Before.trans {a b c : Line} (ab : a.Before b) (bc : b.Before c) : a.Before c :=
  Nat.lt_trans (Nat.lt_of_lt_of_le ab (Nat.le_add_right b.start _)) bc

instance : Trans Before Before Before := ⟨Before.trans⟩

/-- The lines cut the text at its line feeds. A line is the range of bytes from its start to its
stop. -/
structure Cuts (text : String) (ls : List Line) : Prop where
  /-- There is a line, and the first one begins with the text. -/
  first : ∃ l ∈ ls.head?, l.start = 0
  increasing : ls.Pairwise Before
  /-- The text of a line is what the text has in its range. -/
  slices : ∀ l ∈ ls, l.start ≤ l.stop ∧ l.slice text = bytesOf l.text
  plain : ∀ l ∈ ls, 10 ∉ l.slice text
  boundaries : ∀ l ∈ ls,
    (⟨l.start⟩ : String.Pos.Raw).IsValid text ∧ (⟨l.stop⟩ : String.Pos.Raw).IsValid text
  /-- Between a line and the next one is a single byte, a line feed. -/
  adjacent : ls.IsChain fun a b => b.start = a.stop + 1 ∧ (utf8Bytes text)[a.stop]? = some 10
  /-- Behind the last line is nothing, or a final line feed. -/
  last : ∃ l ∈ ls.getLast?,
    l.stop + (finalFeed 10 (utf8Bytes text)).length = (utf8Bytes text).length
  join : [10].intercalate (ls.map (slice text)) ++ finalFeed 10 (utf8Bytes text) = utf8Bytes text

theorem finalFeed_utf8Bytes (text : String) :
    finalFeed 10 (utf8Bytes text) = bytesOf (finalFeed '\n' text.toList) := by
  rw [bytesOf_finalFeed, utf8Bytes_eq_bytesOf]

namespace Tiles

variable {text : String} {ls : List Line}

theorem slice_eq (tiles : Tiles 0 text.toList ls) {l : Line} (mem : l ∈ ls) :
    l.slice text = bytesOf l.text := by
  obtain ⟨front, back, stands⟩ := tiles.stands mem
  exact stands.slice_eq

theorem increasing (tiles : Tiles 0 text.toList ls) : ls.Pairwise Before := by
  have chain : ls.IsChain Before := by
    refine tiles.chain.imp ?_
    intro a b next
    exact Nat.lt_of_lt_of_eq (Nat.lt_succ_self a.stop) next.symm
  exact chain.pairwise

theorem adjacent (tiles : Tiles 0 text.toList ls) :
    ls.IsChain fun a b => b.start = a.stop + 1 ∧ (utf8Bytes text)[a.stop]? = some 10 := by
  refine tiles.chain.imp_of_mem_imp fun a b ha hb next => ⟨next, ?_⟩
  obtain ⟨front, back, stands⟩ := tiles.stands ha
  obtain ⟨front', back', stands'⟩ := tiles.stands hb
  -- the next line begins within the text or at its end, so there is a byte before it
  have inside : b.start ≤ (utf8Bytes text).length := by
    rw [stands'.bytes, stands'.start, List.length_append, length_bytesOf]
    omega
  exact stands.feed_behind (by omega)

theorem ends_bytes (tiles : Tiles 0 text.toList ls) : ∃ l ∈ ls.getLast?,
    l.stop + (finalFeed 10 (utf8Bytes text)).length = (utf8Bytes text).length := by
  obtain ⟨l, hl, stop⟩ := tiles.ends
  have size : (bytesOf (finalFeed '\n' text.toList)).length =
      (finalFeed '\n' text.toList).length := by
    unfold finalFeed
    split <;> rfl
  refine ⟨l, hl, ?_⟩
  rw [finalFeed_utf8Bytes, size, stop, utf8Bytes_eq_bytesOf, length_bytesOf, Nat.zero_add]

theorem join_bytes (tiles : Tiles 0 text.toList ls) :
    [10].intercalate (ls.map (slice text)) ++ finalFeed 10 (utf8Bytes text) = utf8Bytes text := by
  have slices : ls.map (slice text) = (ls.map (·.text)).map bytesOf := by
    rw [List.map_map]
    exact List.map_congr_left fun l mem => tiles.slice_eq mem
  rw [slices, ← bytesOf_intercalate, finalFeed_utf8Bytes, ← bytesOf_append, tiles.join,
    utf8Bytes_eq_bytesOf]

theorem cuts (tiles : Tiles 0 text.toList ls) : Cuts text ls where
  first := tiles.first
  increasing := tiles.increasing
  slices := fun l mem => ⟨Nat.le_add_right _ _, tiles.slice_eq mem⟩
  plain := by
    intro l mem
    obtain ⟨front, back, stands⟩ := tiles.stands mem
    rw [stands.slice_eq, ten_mem_bytesOf_iff]
    exact stands.plain
  boundaries := by
    intro l mem
    obtain ⟨front, back, stands⟩ := tiles.stands mem
    exact stands.boundaries
  adjacent := tiles.adjacent
  last := tiles.ends_bytes
  join := tiles.join_bytes

end Tiles

/-- A line is picked for every number. -/
theorem getElem?_eq_pick {ls : List Line} (some : ls ≠ []) (n : Nat) :
    ls[min (max n 1 - 1) (ls.length - 1)]? = .some (pick ls n) := by
  have bound := List.length_pos_iff.mpr some
  have index : nearest ls n - 1 = min (max n 1 - 1) (ls.length - 1) := by
    unfold nearest
    omega
  have here : min (max n 1 - 1) (ls.length - 1) < ls.length := by omega
  rw [pick, index, List.getD_eq_getElem?_getD, List.getElem?_eq_getElem here]
  rfl

end Line

/-- Splitting a text into lines is exact. The lines cut the text at its line feeds, and whatever
number is asked for, there is a line to be picked: the one of that number, or the first one below
and the last one above all numbers. -/
theorem split_is_exact (text : String) :
    Line.Cuts text (Line.split text) ∧
    (∀ n, (Line.split text)[min (max n 1 - 1) ((Line.split text).length - 1)]? =
      some (Line.pick (Line.split text) n)) ∧
    (Line.split text).head? = some (Line.pick (Line.split text) 0) ∧
    ∀ n, (Line.split text).length ≤ n →
      (Line.split text).getLast? = some (Line.pick (Line.split text) n) := by
  have picks := Line.getElem?_eq_pick (Line.split_ne_nil text)
  refine ⟨(Line.tiles_split text).cuts, picks, ?_, ?_⟩
  · rw [← picks 0, List.head?_eq_getElem?]
    simp
  · intro n above
    have index : min (max n 1 - 1) ((Line.split text).length - 1) = (Line.split text).length - 1 := by
      omega
    rw [← picks n, index, List.getLast?_eq_getElem?]

/-- A character of two bytes, an empty line and a final line feed. -/
theorem split_is_exact_accents :
    Line.split "é\n\nx\n" = [⟨0, ['é']⟩, ⟨3, []⟩, ⟨4, ['x']⟩] ∧
    Line.Cuts "é\n\nx\n" [⟨0, ['é']⟩, ⟨3, []⟩, ⟨4, ['x']⟩] ∧
    Line.pick (Line.split "é\n\nx\n") 4294967295 = ⟨4, ['x']⟩ := by
  have lines : Line.split "é\n\nx\n" = [⟨0, ['é']⟩, ⟨3, []⟩, ⟨4, ['x']⟩] := by decide +kernel
  obtain ⟨cuts, -, -, last⟩ := split_is_exact "é\n\nx\n"
  rw [lines] at cuts last
  have above := last 4294967295 (by decide)
  rw [lines]
  exact ⟨rfl, cuts, (Option.some.inj above).symm⟩

end Lisplet
