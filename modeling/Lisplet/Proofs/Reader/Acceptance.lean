import Lisplet.Command.Outcome
import Lisplet.Proofs.Reader.Completeness
import Lisplet.Proofs.Reader.Soundness
/-!
The reader accepts exactly its grammar. A text is a script if and only if all of it is tokens and
the tokens before the end spell the script's forms, lines included (`ofText_eq_ok_iff`); and tokens
spell at most one list of forms (`Spells.unique`).
-/
namespace Lisplet

/-- The token that was read, if it was one and not the end. -/
def Reading.token? : Reading → Option Token
  | .ok t => if t.kind = .eof then none else some t
  | .error _ => none

/-- The tokens of the text before its end, faulty pieces left out. -/
def Scanner.tokens (s : Scanner) : List Token := s.readings.filterMap Reading.token?

/-- Tokens spell at most one list of forms. -/
theorem Spells.unique {es fs : List Expr} {ts : List Token} (h : Spells (.exprs es) ts)
    (h' : Spells (.exprs fs) ts) : es = fs := by
  have he := h.readForms [] 0
  rw [h'.readForms [] 0] at he
  simpa using he.symm

theorem Scanner.Scans.not_isEnd {s : Scanner} {c : Cursor} (h : s.Scans c) :
    ∀ r ∈ c.readings, r.isEnd = false := by
  rcases c with ⟨rs, last⟩
  induction rs generalizing s with
  | nil => simp
  | cons r rs ih =>
    obtain ⟨-, hend, hs⟩ := h.next_cons
    rintro q (_ | ⟨_, hq⟩)
    · exact hend
    · exact ih hs q hq

/-- A text is a script if and only if all of it is tokens and they spell the script. -/
theorem Script.ofText_eq_ok_iff {text : String} {s : Script} :
    Script.ofText text = .ok s ↔ ∃ ts last,
      (Scanner.ofText text).readings = (ts ++ [⟨.eof, last⟩]).map .ok ∧
        Spells (.exprs s.forms) ts := by
  constructor
  · intro h
    obtain ⟨c, hc⟩ := (Scanner.ofText text).exists_scans
    rw [Script.ofText_eq_readScript hc] at h
    obtain ⟨ts, es, rest, hts, hrest, hes, hforms⟩ := Reader.readForms_sound (Prod.ext h rfl)
    obtain rfl : rest = [] := by
      cases rest with
      | nil => rfl
      | cons r rest =>
        have more := hc.not_isEnd r (by simp [hts])
        rw [hrest r rfl] at more
        cases more
    refine ⟨ts, c.last, ?_, ?_⟩
    · rw [hc, hts]
      simp
    · rw [hforms]
      exact hes
  · rintro ⟨ts, last, hscan, hs⟩
    have hc : (Scanner.ofText text).Scans (Reader.ahead ts [] last) := by
      simpa [Scanner.Scans, Reader.ahead] using hscan
    rw [Script.ofText_eq_readScript hc]
    exact hs.readForms [] last

theorem map_filterMap_token? {rs : List Reading} (lexed : ∀ r ∈ rs, r.isOk = true)
    (more : ∀ r ∈ rs, r.isEnd = false) : (rs.filterMap Reading.token?).map .ok = rs := by
  induction rs with
  | nil => rfl
  | cons r rs ih =>
    have tail := ih (fun q hq => lexed q (by simp [hq])) (fun q hq => more q (by simp [hq]))
    cases r with
    | error e => exact absurd (lexed (.error e) (by simp)) (by simp [Reading.isOk])
    | ok t =>
      have ht : t.kind ≠ .eof := by simpa using more (.ok t) (by simp)
      simp [Reading.token?, ht, tail]

/-- Where no piece of the text is faulty, its readings are its tokens and the end. -/
theorem Scanner.readings_eq_tokens {s : Scanner} (lexed : ∀ r ∈ s.readings, r.isOk = true) :
    ∃ last, s.readings = (s.tokens ++ [Token.mk .eof last]).map .ok := by
  obtain ⟨c, hc⟩ := s.exists_scans
  have hs : s.readings = c.readings ++ [.ok ⟨.eof, c.last⟩] := hc
  have hmap := map_filterMap_token? (fun r hr => lexed r (by simp [hs, hr])) hc.not_isEnd
  refine ⟨c.last, ?_⟩
  simp only [tokens, hs, List.filterMap_append, List.map_append, hmap]
  simp [Reading.token?]

/-- The reader accepts a text of tokens as a script if and only if the grammar spells the script's
forms, with their lines, by the tokens before the end; and it spells no other forms by them. -/
theorem accepts_iff_spells :
    (∀ text : String, (∀ r ∈ (Scanner.ofText text).readings, r.isOk = true) →
      ∀ s, Script.ofText text = .ok s ↔ Spells (.exprs s.forms) (Scanner.ofText text).tokens) ∧
    ∀ (ts : List Token) (es fs : List Expr), Spells (.exprs es) ts → Spells (.exprs fs) ts →
      es = fs := by
  refine ⟨fun text lexed s => ?_, fun ts es fs h h' => h.unique h'⟩
  obtain ⟨last, hread⟩ := Scanner.readings_eq_tokens lexed
  rw [Script.ofText_eq_ok_iff]
  constructor
  · rintro ⟨ts, last', hread', hs⟩
    have same := (List.map_inj_right fun _ _ h => Except.ok.inj h).mp (hread'.symm.trans hread)
    obtain ⟨rfl, -⟩ : ts = (Scanner.ofText text).tokens ∧ last' = last := by simpa using same
    exact hs
  · exact fun hs => ⟨_, last, hread, hs⟩

/-- A form over two lines whose missing parts take the lines of their forms. -/
theorem accepts_conditional_over_two_lines :
    (∀ r ∈ (Scanner.ofText "(if x\n(return))").readings, r.isOk = true) ∧
    Script.ofText "(if x\n(return))" = .ok ⟨[.conditional 1 (.access 1 "x")
      (.leave 2 (.literal 2 .undefined)) (.block 1 [])]⟩ := by
  have lexed : ∀ r ∈ (Scanner.ofText "(if x\n(return))").readings, r.isOk = true := by
    decide +kernel
  have tokens : (Scanner.ofText "(if x\n(return))").tokens =
      enclose 1 (⟨.symbol "if", 1⟩ :: ([⟨.symbol "x", 1⟩] ++ enclose 2 [⟨.symbol "return", 2⟩] 2)) 2 ++
        [] := by
    decide +kernel
  refine ⟨lexed, (accepts_iff_spells.1 _ lexed _).mpr ?_⟩
  rw [tokens]
  have condition := Spells.access 1 "x" (by decide)
  exact .exprsCons (.conditionalShort 1 1 2 condition (.leaveEmpty 2 2 2)) .exprsNil

end Lisplet
