import Mathlib.Data.Nat.Digits.Defs
import Lisplet.Object.Text
import Lisplet.Proofs.Token.Layout
/-!
Integer literals. What a numeral denotes is told by the places of its digits (`Numeral.Denotes`), of
which there may be any number; how it is computed, digit by digit from the left, comes to the same
(`value_of_denotes`). A lexeme is an integer, or one out of range, just if it has the form of a
numeral (`Lexes.shaped_iff`), so the test of the form and the test of the range never disagree.
-/
namespace Lisplet
namespace Numeral

/-- The number that has these decimal digits, that of the units last. -/
def places (ds : List Char) : Nat := Nat.ofDigits 10 (ds.reverse.map fun d => d.toNat - '0'.toNat)

/-- The characters are a decimal numeral for the integer. There may be zeros at the beginning, also
behind a minus sign and also if nothing else follows. -/
inductive Denotes : List Char → Int → Prop where
  | plain {ds : List Char} (some : ds ≠ []) (digits : ∀ d ∈ ds, d.isDigit = true) :
      Denotes ds (places ds)
  | minus {ds : List Char} (some : ds ≠ []) (digits : ∀ d ∈ ds, d.isDigit = true) :
      Denotes ('-' :: ds) (-places ds)

theorem ofDigitChars_eq_places (ds : List Char) : Nat.ofDigitChars 10 ds 0 = places ds := by
  have step : (fun (n : Nat) (d : Char) => 10 * n + (d.toNat - '0'.toNat)) =
      fun n d => d.toNat - '0'.toNat + 10 * n := by
    funext n d
    exact Nat.add_comm _ _
  rw [places, Nat.ofDigits_eq_foldr, List.foldr_map, List.foldr_reverse, Nat.ofDigitChars_eq_foldl,
    step]
  rfl

theorem value_of_denotes {cs : List Char} {n : Int} (h : Denotes cs n) : value cs = n := by
  cases h with
  | plain some digits =>
    have ds := isDigits_iff.mpr ⟨some, digits⟩
    simp only [value, magnitude_of_isDigits ds, if_neg (head?_ne_minus ds), ofDigitChars_eq_places]
  | minus => simp [value, magnitude, ofDigitChars_eq_places]

theorem denotes_value {cs : List Char} (h : Shaped cs) : Denotes cs (value cs) := by
  obtain ⟨ds, some, digits, rfl | rfl⟩ := h
  · have denotes := Denotes.plain some digits
    rwa [← value_of_denotes denotes] at denotes
  · have denotes := Denotes.minus some digits
    rwa [← value_of_denotes denotes] at denotes

/-- The integers that are words. -/
theorem exists_toInt_eq_iff {n : Int} : (∃ v : Int64, v.toInt = n) ↔
    -9223372036854775808 ≤ n ∧ n ≤ 9223372036854775807 := by
  constructor
  · rintro ⟨v, rfl⟩
    have low := v.le_toInt
    have high := v.toInt_lt
    omega
  · rintro ⟨low, high⟩
    exact ⟨Int64.ofInt n, Int64.toInt_ofInt_of_le low (by omega)⟩

end Numeral

namespace Lexes

variable {before after cs : List Char}

/-- Numerals and no other lexemes are integers, or are out of range. -/
theorem shaped_iff {r : Except ScanFault TokenKind} (h : Lexes before after cs r) :
    Numeral.Shaped cs ↔
      (∃ v, r = .ok (.integer v)) ∨ ∃ lexeme, r = .error (.integerOutOfRange lexeme) := by
  rw [← Numeral.isNumeral_iff]
  cases h with
  | leftParen | rightParen | string | unclosed | eof =>
    simp [Numeral.isNumeral, Numeral.magnitude, Numeral.isDigits]
  | integer run numeral => simp [Numeral.isNumeral_iff.mpr numeral]
  | outOfRange run numeral => simp [Numeral.isNumeral_iff.mpr numeral]
  | symbol run word => simp [Numeral.isNumeral_eq_false_iff.mpr word]

theorem toInt_eq_value {v : Int64} (h : Lexes before after cs (.ok (.integer v))) :
    v.toInt = Numeral.value cs := by
  cases h with
  | integer _ _ value => exact value

theorem eq_of_outOfRange {lexeme : String}
    (h : Lexes before after cs (.error (.integerOutOfRange lexeme))) :
    lexeme = String.ofList cs ∧ ¬∃ v : Int64, v.toInt = Numeral.value cs := by
  cases h with
  | outOfRange _ _ range => exact ⟨rfl, not_exists.mpr range⟩

end Lexes

namespace Scanner

/-- A run of characters is a lexeme wherever it stands behind trivia. -/
theorem lexeme_piece_of_run {cs rest trivia : List Char} (some : cs ≠ [])
    (plain : ∀ c ∈ cs, isDelimiter c = false) (ends : ∀ c ∈ rest.head?, isDelimiter c = true)
    (gap : Trivia (cs ++ rest) trivia) (line : Nat) :
    (piece ⟨trivia ++ (cs ++ rest), line⟩).lexeme = cs := by
  have look := (next_append gap line).trans (next_atom some plain ends (line + trivia.count '\n'))
  have start : (atLexeme ⟨trivia ++ (cs ++ rest), line⟩).rest = cs ++ rest := by
    obtain ⟨c, cs, rfl⟩ := List.exists_cons_of_ne_nil some
    have hc := plain c List.mem_cons_self
    simp only [isDelimiter, Bool.or_eq_false_iff, beq_eq_false_iff_ne] at hc
    rw [atLexeme, skip_append gap]
    simp [skip, hc, ne_feed hc.1.1.1.1]
  rw [piece, look, start]
  exact taken_eq rfl

theorem isDelimiter_of_shaped {cs : List Char} (h : Numeral.Shaped cs) :
    ∀ c ∈ cs, isDelimiter c = false := by
  obtain ⟨ds, -, digits, rfl | rfl⟩ := h
  · exact fun c hc => isDelimiter_of_isDigit (digits c hc)
  · exact List.forall_mem_cons.mpr ⟨by decide, fun c hc => isDelimiter_of_isDigit (digits c hc)⟩

/-- The canonical numeral of a word is read as that word. -/
theorem readings_ofWord (v : Int64) : (ofText (Numeral.ofWord v)).readings.map Reading.result =
    [.ok (.integer v), .ok .eof] := by
  have written : (TokenKind.integer v).Writable := trivial
  obtain ⟨line, look⟩ := @next_lexeme _ written [] (by simp) 1
  rw [List.append_nil] at look
  have start : ofText (Numeral.ofWord v) = ⟨(TokenKind.integer v).lexeme.toList, 1⟩ := rfl
  rw [start, readings_of_not_isEnd (by rw [look]; rfl), look, readings_of_isEnd rfl]
  rfl

end Scanner

/-- Integer literals are exact, however long they are. A lexeme that is a numeral is read as the
word that it denotes, or is out of range as a whole if there is no such word; any other lexeme is
neither. Every numeral is a lexeme where it stands on its own; and what is printed for a word, be it
by expressions, tokens, dumps or values, is read as that word. -/
theorem integer_literals_exact {ν : Type} :
    (∀ s : Scanner, Numeral.Shaped s.piece.lexeme → ∃ n, Numeral.Denotes s.piece.lexeme n ∧
      (-9223372036854775808 ≤ n ∧ n ≤ 9223372036854775807 →
        ∃ v : Int64, v.toInt = n ∧ s.next.1.result = .ok (.integer v)) ∧
      (¬(-9223372036854775808 ≤ n ∧ n ≤ 9223372036854775807) →
        s.next.1.result = .error (.integerOutOfRange (String.ofList s.piece.lexeme)))) ∧
    (∀ s : Scanner, ¬Numeral.Shaped s.piece.lexeme →
      (∀ v, s.next.1.result ≠ .ok (.integer v)) ∧
        ∀ lexeme, s.next.1.result ≠ .error (.integerOutOfRange lexeme)) ∧
    (∀ cs, Numeral.Shaped cs → ∀ trivia rest, Trivia (cs ++ rest) trivia →
      (∀ c ∈ rest.head?, Scanner.isDelimiter c = true) →
        ∀ line, (Scanner.piece ⟨trivia ++ (cs ++ rest), line⟩).lexeme = cs) ∧
    ∀ (v : Int64) (line : Nat) (h : Heap ν),
      ∀ text ∈ [(Expr.literal line (.integer v)).text, (TokenKind.integer v).lexeme,
          (TokenKind.integer v).literalText, (Dump.word v).compact, h.text (.integer v)],
        (Scanner.ofText text).readings.map Reading.result = [.ok (.integer v), .ok .eof] := by
  refine ⟨?_, ?_, ?_, ?_⟩
  · intro s numeral
    refine ⟨_, Numeral.denotes_value numeral, ?_⟩
    have lexes := s.lexes_piece (edge_start _)
    rw [← Numeral.exists_toInt_eq_iff]
    rcases lexes.shaped_iff.mp numeral with ⟨v, found⟩ | ⟨lexeme, found⟩
    · rw [found] at lexes ⊢
      have value := lexes.toInt_eq_value
      exact ⟨fun _ => ⟨v, value, rfl⟩, fun none => absurd ⟨v, value⟩ none⟩
    · rw [found] at lexes ⊢
      obtain ⟨whole, none⟩ := lexes.eq_of_outOfRange
      exact ⟨fun range => absurd range none, fun _ => by rw [whole]⟩
  · intro s other
    have neither := mt (s.lexes_piece (edge_start _)).shaped_iff.mpr other
    exact ⟨fun v found => neither (.inl ⟨v, found⟩), fun x found => neither (.inr ⟨x, found⟩)⟩
  · intro cs numeral trivia rest gap ends line
    have plain := Scanner.isDelimiter_of_shaped numeral
    exact Scanner.lexeme_piece_of_run numeral.ne_nil plain ends gap line
  · intro v line h text printed
    have expression : (Expr.literal line (.integer v)).text = Numeral.ofWord v := by
      rw [Expr.text, Expr.tokens, layout, String.ofList_toList]
      rfl
    have same : text = Numeral.ofWord v := by
      simp only [List.mem_cons, expression, List.not_mem_nil, or_false] at printed
      rcases printed with rfl | rfl | rfl | rfl | rfl <;> rfl
    rw [same]
    exact Scanner.readings_ofWord v

/-- The least word behind zeros and a comment, the integer above the greatest word, a lexeme that
begins like a numeral, and the least word as it is printed. -/
theorem integer_literals_exact_least :
    (Scanner.ofText ";\n-009223372036854775808)").next.1.result =
      .ok (.integer Int64.minValue) ∧
    (Scanner.ofText "9223372036854775808").next.1.result =
      .error (.integerOutOfRange "9223372036854775808") ∧
    (Scanner.ofText "1e9").next.1.result ≠ .error (.integerOutOfRange "1e9") ∧
    (Scanner.ofText (Expr.literal 7 (.integer Int64.minValue)).text).readings.map Reading.result =
      [.ok (.integer Int64.minValue), .ok .eof] := by
  obtain ⟨numerals, others, placed, printed⟩ := @integer_literals_exact Unit
  refine ⟨?_, ?_, ?_, printed Int64.minValue 7 .empty _ List.mem_cons_self⟩
  · have shaped : Numeral.Shaped "-009223372036854775808".toList :=
      Numeral.isNumeral_iff.mp (by decide +kernel)
    have gap : Trivia ("-009223372036854775808".toList ++ [')']) [';', '\n'] :=
      .comment List.not_mem_nil (by simp) (.blank (by decide) .nil)
    have text : Scanner.ofText ";\n-009223372036854775808)" =
        ⟨[';', '\n'] ++ ("-009223372036854775808".toList ++ [')']), 1⟩ := by decide +kernel
    have lexeme := placed _ shaped _ _ gap (by simp [Scanner.isDelimiter]) 1
    rw [text]
    obtain ⟨n, denotes, word, -⟩ := numerals _ (by rw [lexeme]; exact shaped)
    have value : n = -9223372036854775808 := by
      rw [← Numeral.value_of_denotes denotes, lexeme]
      decide +kernel
    subst value
    obtain ⟨v, least, found⟩ := word (by decide)
    obtain rfl : v = Int64.minValue := Int64.toInt_inj.mp least
    exact found
  · have lexeme : (Scanner.ofText "9223372036854775808").piece.lexeme =
        "9223372036854775808".toList := by decide +kernel
    have shaped : Numeral.Shaped "9223372036854775808".toList :=
      Numeral.isNumeral_iff.mp (by decide +kernel)
    obtain ⟨n, denotes, -, refused⟩ := numerals (.ofText "9223372036854775808") (by rwa [lexeme])
    have value : n = 9223372036854775808 := by
      rw [← Numeral.value_of_denotes denotes, lexeme]
      decide +kernel
    subst value
    rw [refused (by decide), lexeme, String.ofList_toList]
  · have other : Numeral.isNumeral (Scanner.ofText "1e9").piece.lexeme = false := by decide +kernel
    exact (others _ (Numeral.isNumeral_eq_false_iff.mp other)).2 _

end Lisplet
