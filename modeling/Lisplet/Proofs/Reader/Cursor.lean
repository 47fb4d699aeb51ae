import Lisplet.Reader.Basic
/-!
What the reader sees of its source. It looks at readings and takes them, so two sources that show
the same readings, now and after anything that is taken from them, are read alike
(`readForms_alike`). The lookahead of a text and a plain cursor over all the readings of the text are
two such sources (`alike_shows`). So a text is read as if its readings were a list and nothing were
ever held (`ofText_eq_readScript`).
-/
namespace Lisplet

open TokenSource

/-- Sources in the relation show the same reading and stay in the relation. -/
structure Alike {σ τ : Type} [TokenSource σ] [TokenSource τ] (R : σ → τ → Prop) : Prop where
  peek : ∀ {s t}, R s t → (peek s).1 = (peek t).1 ∧ R (peek s).2 (peek t).2
  next : ∀ {s t}, R s t → (next s).1 = (next t).1 ∧ R (next s).2 (next t).2

theorem Alike.look {σ τ : Type} [TokenSource σ] [TokenSource τ] {R : σ → τ → Prop} (h : Alike R)
    {s s' : σ} {t : τ} {r : Reading} (hst : R s t) (look : TokenSource.peek s = (r, s')) :
    ∃ t', TokenSource.peek t = (r, t') ∧ R s' t' := by
  obtain ⟨hr, hs⟩ := h.peek hst
  rw [look] at hr hs
  exact ⟨(TokenSource.peek t).2, Prod.ext hr.symm rfl, hs⟩

namespace Reader

section
variable {σ τ : Type} [TokenSource σ] [TokenSource τ] {R : σ → τ → Prop}

/-- How reading goes on after a form has been closed. -/
def conclude (whole : Expr) (s : σ) : List Hole → Except ReadError Expr × σ
  | [] => (.ok whole, s)
  | hole :: outer => readForm (hole.fill whole) outer s

/-- How reading goes on after the innermost form has made its move on the token `t`, which has been
looked at. -/
def proceed (t : Token) (outer : List Hole) (s : σ) : Move → Except ReadError Expr × σ
  | .shift frame => readForm frame outer (next s).2
  | .descend hole => readForm (.operand (.callee t.line)) (hole :: outer) (next s).2
  | .finish whole => conclude whole (next s).2 outer
  | .refuse e kept => (.error e, if kept then s else (next s).2)

theorem readForm_error {s s' : σ} {e : ScanError} (look : peek s = (.error e, s')) (frame : Frame)
    (outer : List Hole) : readForm frame outer s =
      (.error (.ofScan e), if frame.looks then s' else (next s').2) := by
  rw [readForm]
  split <;> simp_all

theorem readForm_end {s s' : σ} {t : Token} (look : peek s = (.ok t, s')) (ended : t.kind = .eof)
    (frame : Frame) (outer : List Hole) :
    readForm frame outer s = (.error ⟨frame.faultAtEnd, t.line⟩, s') := by
  rw [readForm]
  split <;> simp_all

theorem readForm_token {s s' : σ} {t : Token} (look : peek s = (.ok t, s')) (more : t.kind ≠ .eof)
    (frame : Frame) (outer : List Hole) :
    readForm frame outer s = proceed t outer s' (frame.see t) := by
  rw [readForm]
  split
  · simp_all
  · next t' s'' look' =>
    obtain ⟨ht, hs⟩ : t' = t ∧ s'' = s' := by simpa [look'] using look
    subst ht hs
    rw [dif_neg more]
    cases frame.see t' with
    | shift | descend | refuse => rfl
    | finish whole => cases outer <;> rfl

/-- The results are the same and the sources are still alike. -/
def Same {α : Type} (R : σ → τ → Prop) (x : α × σ) (y : α × τ) : Prop := x.1 = y.1 ∧ R x.2 y.2

theorem readForm_alike (h : Alike R) (frame : Frame) (outer : List Hole) {s : σ} {t : τ}
    (hst : R s t) : Same R (readForm frame outer s) (readForm frame outer t) := by
  fun_induction readForm frame outer s generalizing t with
  | case1 frame outer s e s' look =>
    obtain ⟨t', look', hs⟩ := h.look hst look
    rw [readForm_error look']
    refine ⟨rfl, ?_⟩
    split
    · exact hs
    · exact (h.next hs).2
  | case2 frame outer s k s' look ended =>
    obtain ⟨t', look', hs⟩ := h.look hst look
    rw [readForm_end look' ended]
    exact ⟨rfl, hs⟩
  | case3 frame outer s k s' look more frame' see ih =>
    obtain ⟨t', look', hs⟩ := h.look hst look
    rw [readForm_token look' more, see]
    exact ih (h.next hs).2
  | case4 frame outer s k s' look more hole see ih =>
    obtain ⟨t', look', hs⟩ := h.look hst look
    rw [readForm_token look' more, see]
    exact ih (h.next hs).2
  | case5 frame s k s' look more whole see =>
    obtain ⟨t', look', hs⟩ := h.look hst look
    rw [readForm_token look' more, see]
    exact ⟨rfl, (h.next hs).2⟩
  | case6 frame s k s' look more whole see hole outer ih =>
    obtain ⟨t', look', hs⟩ := h.look hst look
    rw [readForm_token look' more, see]
    exact ih (h.next hs).2
  | case7 frame outer s k s' look more e kept see =>
    obtain ⟨t', look', hs⟩ := h.look hst look
    rw [readForm_token look' more, see]
    cases kept with
    | true => exact ⟨rfl, hs⟩
    | false => exact ⟨rfl, (h.next hs).2⟩

theorem readExpr_alike (h : Alike R) {s : σ} {t : τ} (hst : R s t) :
    Same R (readExpr s) (readExpr t) := by
  rcases look : peek s with ⟨e | k, s'⟩ <;> obtain ⟨t', look', hs⟩ := h.look hst look
  · simp only [readExpr, look, look']
    exact ⟨rfl, (h.next hs).2⟩
  · simp only [readExpr, look, look']
    have hnext := (h.next hs).2
    split
    · exact ⟨rfl, hnext⟩
    · split
      · exact readForm_alike h _ _ hnext
      · exact ⟨rfl, hs⟩
      · exact ⟨rfl, hnext⟩

theorem readForms_error {s s' : σ} {e : ScanError} (look : peek s = (.error e, s'))
    (held : List Expr) : readForms held s = (.error (.ofScan e), s') := by
  rw [readForms]
  split <;> simp_all

theorem readForms_end {s s' : σ} {t : Token} (look : peek s = (.ok t, s')) (ended : t.kind = .eof)
    (held : List Expr) : readForms held s = (.ok ⟨held.reverse⟩, s') := by
  rw [readForms]
  split <;> simp_all

theorem readForms_token {s s' : σ} {t : Token} (look : peek s = (.ok t, s')) (more : t.kind ≠ .eof)
    (held : List Expr) : readForms held s = match readExpr s' with
      | (.ok e, s'') => readForms (e :: held) s''
      | (.error e, s'') => (.error e, s'') := by
  rw [readForms]
  split
  · simp_all
  · next t' s'' look' =>
    obtain ⟨ht, hs⟩ : t' = t ∧ s'' = s' := by simpa [look'] using look
    subst ht hs
    rw [dif_neg more]
    split <;> simp_all

theorem readForms_alike (h : Alike R) (held : List Expr) {s : σ} {t : τ} (hst : R s t) :
    Same R (readForms held s) (readForms held t) := by
  fun_induction readForms held s generalizing t with
  | case1 held s e s' look =>
    obtain ⟨t', look', hs⟩ := h.look hst look
    rw [readForms_error look']
    exact ⟨rfl, hs⟩
  | case2 held s k s' look ended =>
    obtain ⟨t', look', hs⟩ := h.look hst look
    rw [readForms_end look' ended]
    exact ⟨rfl, hs⟩
  | case3 held s k s' look more e s'' read ih =>
    obtain ⟨t', look', hs⟩ := h.look hst look
    obtain ⟨hr, hs'⟩ := readExpr_alike h hs
    rw [readForms_token look' more]
    rcases read' : readExpr t' with ⟨_, t''⟩
    rw [read, read'] at hr hs'
    subst hr
    exact ih hs'
  | case4 held s k s' look more e s'' read =>
    obtain ⟨t', look', hs⟩ := h.look hst look
    obtain ⟨hr, hs'⟩ := readExpr_alike h hs
    rw [readForms_token look' more]
    rcases read' : readExpr t' with ⟨_, t''⟩
    rw [read, read'] at hr hs'
    subst hr
    exact ⟨rfl, hs'⟩
end

end Reader

namespace Scanner

/-- The cursor goes over all the readings that the scanner has before the end. -/
def Scans (s : Scanner) (c : Cursor) : Prop := s.readings = c.readings ++ [.ok ⟨.eof, c.last⟩]

theorem readings_of_isEnd {s : Scanner} (h : s.next.1.isEnd = true) : s.readings = [s.next.1] := by
  rw [readings]
  simp [h]

theorem readings_of_not_isEnd {s : Scanner} (h : s.next.1.isEnd = false) :
    s.readings = s.next.1 :: s.next.2.readings := by
  rw [readings]
  simp [h]

theorem readings_ne_nil (s : Scanner) : s.readings ≠ [] := by
  rw [readings]
  split <;> simp

/-- Where there is a character to begin with, a look finds something. -/
theorem isEnd_scan (line : Nat) (c : Char) (cs : List Char) : (scan line c cs).1.isEnd = false := by
  have atom : ∀ {as k}, classify as = .ok k → k ≠ .eof := by
    intro as k h
    unfold classify at h
    split at h
    · split at h <;> cases h
      simp
    · cases h
      simp
  unfold scan
  split
  · rfl
  split
  · rfl
  split
  · unfold scanString
    split <;> rfl
  · unfold scanAtom
    split
    · next kind => simpa using atom kind
    · rfl

/-- The scanner that found the end has nothing left, and stays on its line. -/
theorem next_of_isEnd {s : Scanner} (h : s.next.1.isEnd = true) :
    ∃ line, s.next = (.ok ⟨.eof, line⟩, ⟨[], line⟩) := by
  unfold next at h ⊢
  split at h
  · exact ⟨_, rfl⟩
  · rw [isEnd_scan] at h
    cases h

theorem Scans.nil {s : Scanner} {last : Nat} (look : s.next.1 = .ok ⟨.eof, last⟩) :
    s.Scans ⟨[], last⟩ := by
  rw [Scans, readings_of_isEnd (by rw [look]; rfl), look]
  rfl

theorem Scans.cons {s : Scanner} {r : Reading} {rs : List Reading} {last : Nat}
    (look : s.next.1 = r) (more : r.isEnd = false) (h : s.next.2.Scans ⟨rs, last⟩) :
    s.Scans ⟨r :: rs, last⟩ := by
  rw [Scans, readings_of_not_isEnd (by rw [look]; exact more), look, h]
  rfl

theorem exists_scans (s : Scanner) : ∃ c, s.Scans c := by
  fun_induction readings s with
  | case1 s ended =>
    obtain ⟨line, h⟩ := next_of_isEnd ended
    exact ⟨⟨[], line⟩, .nil (by rw [h])⟩
  | case2 s more ih =>
    obtain ⟨⟨rs, last⟩, hc⟩ := ih
    exact ⟨⟨s.next.1 :: rs, last⟩, .cons rfl (by simpa using more) hc⟩

theorem Scans.next_cons {s : Scanner} {r : Reading} {rs : List Reading} {last : Nat}
    (h : s.Scans ⟨r :: rs, last⟩) :
    s.next.1 = r ∧ r.isEnd = false ∧ s.next.2.Scans ⟨rs, last⟩ := by
  unfold Scans at h ⊢
  cases hend : s.next.1.isEnd with
  | true =>
    rw [readings_of_isEnd hend] at h
    simp at h
  | false =>
    rw [readings_of_not_isEnd hend, List.cons_append] at h
    obtain ⟨hr, hrs⟩ := List.cons.inj h
    exact ⟨hr, hr ▸ hend, hrs⟩

theorem Scans.next_nil {s : Scanner} {last : Nat} (h : s.Scans ⟨[], last⟩) :
    s.next.1 = .ok ⟨.eof, last⟩ ∧ s.next.2.Scans ⟨[], last⟩ := by
  unfold Scans at h ⊢
  cases hend : s.next.1.isEnd with
  | true =>
    obtain ⟨line, hnext⟩ := next_of_isEnd hend
    rw [readings_of_isEnd hend, hnext] at h
    obtain ⟨rfl⟩ : line = last := by simpa using h
    rw [hnext]
    exact ⟨rfl, readings_of_isEnd rfl⟩
  | false =>
    rw [readings_of_not_isEnd hend] at h
    exact absurd (List.cons.inj h).2 (readings_ne_nil _)

end Scanner

namespace Lookahead

/-- The cursor is where the lookahead is: its next reading is the one that is held, if one is. An end
that is held is not among the cursor's readings, which has it for ever. -/
def Shows (s : Lookahead) (c : Cursor) : Prop :=
  match s.held with
  | none => s.scanner.Scans c
  | some r =>
    (r = .ok ⟨.eof, c.last⟩ ∧ c.readings = [] ∧ s.scanner.Scans c) ∨
      (r.isEnd = false ∧ ∃ rs, c.readings = r :: rs ∧ s.scanner.Scans ⟨rs, c.last⟩)

theorem Shows.peek {s : Lookahead} {c : Cursor} (h : Shows s c) :
    s.peek.1 = c.next.1 ∧ Shows s.peek.2 c := by
  rcases s with ⟨_ | r, scanner⟩ <;> rcases c with ⟨_ | ⟨q, qs⟩, last⟩
  · obtain ⟨hr, hs⟩ := Scanner.Scans.next_nil h
    exact ⟨hr, .inl ⟨hr, rfl, hs⟩⟩
  · obtain ⟨rfl, hend, hs⟩ := Scanner.Scans.next_cons h
    exact ⟨rfl, .inr ⟨hend, qs, rfl, hs⟩⟩
  · obtain ⟨rfl, -, hs⟩ | ⟨-, rs, hrs, -⟩ := h
    · exact ⟨rfl, .inl ⟨rfl, rfl, hs⟩⟩
    · simp at hrs
  · obtain ⟨-, hrs, -⟩ | ⟨hend, rs, hrs, hs⟩ := h
    · simp at hrs
    · obtain ⟨rfl, rfl⟩ := List.cons.inj hrs
      exact ⟨rfl, .inr ⟨hend, qs, rfl, hs⟩⟩

theorem Shows.next {s : Lookahead} {c : Cursor} (h : Shows s c) :
    s.next.1 = c.next.1 ∧ Shows s.next.2 c.next.2 := by
  rcases s with ⟨_ | r, scanner⟩ <;> rcases c with ⟨_ | ⟨q, qs⟩, last⟩
  · exact Scanner.Scans.next_nil h
  · obtain ⟨hr, -, hs⟩ := Scanner.Scans.next_cons h
    exact ⟨hr, hs⟩
  · obtain ⟨rfl, -, hs⟩ | ⟨-, rs, hrs, -⟩ := h
    · exact ⟨rfl, hs⟩
    · simp at hrs
  · obtain ⟨-, hrs, -⟩ | ⟨hend, rs, hrs, hs⟩ := h
    · simp at hrs
    · obtain ⟨rfl, rfl⟩ := List.cons.inj hrs
      exact ⟨rfl, hs⟩

/-- A lookahead and a cursor at the same place cannot be told apart. -/
theorem alike_shows : Alike Shows := ⟨Shows.peek, Shows.next⟩

end Lookahead

/-- A text is read as the list of its readings is. -/
theorem Script.ofText_eq_readScript {text : String} {c : Cursor}
    (h : (Scanner.ofText text).Scans c) : Script.ofText text = (Reader.readScript c).1 :=
  (Reader.readForms_alike Lookahead.alike_shows [] (s := Lookahead.ofText text) (t := c) h).1

end Lisplet
