import Lisplet.Proofs.Expr.WellFormed
import Lisplet.Proofs.Token.Layout
/-!
Writing a script and reading it back. What is written is spelled by the grammar again, on whatever
lines its tokens end up (`Expr.respelled`), so every well-formed script is read back from its text,
up to lines (`ofText_text`).
-/
namespace Lisplet

/-! What is written is spelled by the grammar again, on whatever lines the tokens end up. -/

theorem exists_enclose {ts : List Token} {ks : List TokenKind} (h : ts.map (·.kind) = parens ks) :
    ∃ l us r, ts = enclose l us r ∧ us.map (·.kind) = ks := by
  rw [parens, List.cons_append, List.map_eq_cons_iff] at h
  obtain ⟨open_, inner, rfl, hopen, h⟩ := h
  obtain ⟨us, close, rfl, hus, hclose⟩ := List.map_eq_append_iff.mp h
  obtain ⟨last, rfl, hlast⟩ := List.map_eq_singleton_iff.mp hclose
  refine ⟨open_.line, us, last.line, ?_, hus⟩
  rw [enclose, ← hopen, ← hlast]
  rfl

theorem exists_cons {ts : List Token} {k : TokenKind} {ks : List TokenKind}
    (h : ts.map (·.kind) = k :: ks) : ∃ l us, ts = ⟨k, l⟩ :: us ∧ us.map (·.kind) = ks := by
  obtain ⟨t, us, rfl, rfl, hus⟩ := List.map_eq_cons_iff.mp h
  exact ⟨t.line, us, rfl, hus⟩

/-- However its tokens are spread over lines, they spell the expression up to lines. -/
def Expr.Respelled (e : Expr) : Prop :=
  ∀ ts : List Token, ts.map (·.kind) = e.tokens →
    ∃ e', Spells (.expr e') ts ∧ e'.unlined = e.unlined

theorem Expr.respelled_all {es : List Expr} (h : ∀ e ∈ es, e.Respelled) {ts : List Token}
    (hts : ts.map (·.kind) = tokensAll es) :
    ∃ es', Spells (.exprs es') ts ∧ unlinedAll es' = unlinedAll es := by
  induction es generalizing ts with
  | nil =>
    obtain rfl := List.map_eq_nil_iff.mp hts
    exact ⟨[], .exprsNil, rfl⟩
  | cons e es ih =>
    obtain ⟨us, vs, rfl, hus, hvs⟩ := List.map_eq_append_iff.mp hts
    obtain ⟨e', head, he⟩ := h e List.mem_cons_self us hus
    obtain ⟨es', tail, hes⟩ := ih (fun e he => h e (List.mem_cons_of_mem _ he)) hvs
    exact ⟨e' :: es', .exprsCons head tail, by rw [unlinedAll, unlinedAll, he, hes]⟩

theorem Expr.respelled_properties {ps : List (String × Expr)} (h : ∀ p ∈ ps, p.2.Respelled)
    {ts : List Token} (hts : ts.map (·.kind) = tokensProperties ps) :
    ∃ ps', Spells (.properties ps') ts ∧ unlinedProperties ps' = unlinedProperties ps := by
  induction ps generalizing ts with
  | nil =>
    obtain rfl := List.map_eq_nil_iff.mp hts
    exact ⟨[], .propertiesNil, rfl⟩
  | cons p ps ih =>
    obtain ⟨us, vs, rfl, hus, hvs⟩ := List.map_eq_append_iff.mp hts
    obtain ⟨l, inner, r, rfl, hinner⟩ := exists_enclose hus
    obtain ⟨n, ws, rfl, hws⟩ := exists_cons hinner
    obtain ⟨e', value, he⟩ := h p List.mem_cons_self ws hws
    obtain ⟨ps', tail, hps⟩ := ih (fun p hp => h p (List.mem_cons_of_mem _ hp)) hvs
    refine ⟨(p.1, e') :: ps', .propertiesCons l n r p.1 value tail, ?_⟩
    rw [unlinedProperties, unlinedProperties, he, hps]

/-- The forms of a block can be respelled without the block. -/
theorem Expr.Respelled.of_block {l : Nat} {es : List Expr} (h : (Expr.block l es).Respelled)
    {ts : List Token} (hts : ts.map (·.kind) = tokensAll es) :
    ∃ es', Spells (.exprs es') ts ∧ unlinedAll es' = unlinedAll es := by
  obtain ⟨e', hspells, same⟩ := h (enclose l (⟨Keyword.block.token, l⟩ :: ts) l)
    (by simp [enclose, tokens, parens, hts])
  generalize hus : enclose l (⟨Keyword.block.token, l⟩ :: ts) l = us at hspells
  cases e' with
  | block l' es' =>
    cases hspells with
    | block l' k r body =>
      simp only [enclose, List.cons_append, List.cons.injEq] at hus
      obtain ⟨rfl, -⟩ := List.append_inj' hus.2.2 rfl
      exact ⟨es', body, by simpa [unlined] using same⟩
  | literal | access | assign | function | call | leave | conditional | object | field | setField
  | method => simp [unlined] at same

/-- An expression that is no keyword is written with a first token that may start a call. -/
theorem Expr.head?_tokens {f : Expr} (h : f.isKeyword = false) :
    ∀ k ∈ f.tokens.head?, k ≠ .rightParen ∧ ∀ w : Keyword, k ≠ w.token := by
  have word : ∀ x, Keyword.ofWord? x = none → ∀ w : Keyword, TokenKind.symbol x ≠ w.token := by
    intro x hx w same
    rw [TokenKind.symbol.inj same, Keyword.ofWord?_word] at hx
    cases hx
  have paren : TokenKind.leftParen ≠ .rightParen ∧
      ∀ w : Keyword, TokenKind.leftParen ≠ w.token := by simp [Keyword.token]
  cases f with
  | literal l v =>
    rintro k ⟨⟩
    cases v with
    | undefined => exact ⟨by simp [Literal.token], word _ (by decide)⟩
    | integer | string => simp [Literal.token, Keyword.token]
  | access l x =>
    rintro k ⟨⟩
    exact ⟨by simp, word x (by simpa [isKeyword] using h)⟩
  | function l name parameters body =>
    cases body <;>
    · rintro k ⟨⟩
      exact paren
  | block | assign | call | leave | conditional | object | field | setField | method =>
    rintro k ⟨⟩
    exact paren

theorem Expr.startsCall {f : Expr} (h : f.isKeyword = false) {ts : List Token}
    (hts : ts.map (·.kind) = f.tokens) : StartsCall ts := by
  intro t ht
  refine head?_tokens h t.kind ?_
  rw [← hts, List.head?_map]
  exact Option.mem_map_of_mem _ ht

/-- A well-formed expression is spelled by its tokens. -/
theorem Expr.respelled {e : Expr} (h : e.wellFormed = true) : e.Respelled := by
  induction e using Expr.induction with
  | literal l v =>
    intro ts hts
    obtain ⟨n, us, rfl, hus⟩ := exists_cons hts
    obtain rfl := List.map_eq_nil_iff.mp hus
    cases v with
    | undefined => exact ⟨_, .undefined n, rfl⟩
    | integer v => exact ⟨_, .integer n v, rfl⟩
    | string s => exact ⟨_, .string n s, rfl⟩
  | block l body ih =>
    intro ts hts
    obtain ⟨l', us, r, rfl, hus⟩ := exists_enclose hts
    obtain ⟨k, vs, rfl, hvs⟩ := exists_cons hus
    have all := fun e he => ih e he (wellFormedAll_iff.mp h e he)
    obtain ⟨es', hes, same⟩ := respelled_all all hvs
    exact ⟨_, .block l' k r hes, by rw [unlined, unlined, same]⟩
  | access l x =>
    intro ts hts
    obtain ⟨n, us, rfl, hus⟩ := exists_cons hts
    obtain rfl := List.map_eq_nil_iff.mp hus
    simp only [wellFormed, Bool.and_eq_true, bne_iff_ne] at h
    exact ⟨_, .access n x h.2, rfl⟩
  | assign l mode x value ih =>
    intro ts hts
    simp only [wellFormed, Bool.and_eq_true] at h
    obtain ⟨l', us, r, rfl, hus⟩ := exists_enclose hts
    obtain ⟨k, vs, rfl, hvs⟩ := exists_cons hus
    obtain ⟨n, ws, rfl, hws⟩ := exists_cons hvs
    obtain ⟨e', value', same⟩ := ih h.2 ws hws
    exact ⟨_, .assign l' k n r mode x value', by rw [unlined, unlined, same]⟩
  | function l name parameters body ih =>
    intro ts hts
    simp only [wellFormed, Bool.and_eq_true] at h
    obtain ⟨-, hblock, hbody⟩ := and_assoc.mp h
    cases body with
    | block l₁ es =>
      obtain ⟨l', us, r, rfl, hus⟩ := exists_enclose hts
      obtain ⟨k, vs, rfl, hvs⟩ := exists_cons hus
      rw [List.append_assoc] at hvs
      obtain ⟨fs, ws, rfl, named, hws⟩ := List.map_eq_append_iff.mp hvs
      obtain ⟨qs, bs, rfl, hqs, hbs⟩ := List.map_eq_append_iff.mp hws
      obtain ⟨m, ps, n, rfl, params⟩ := exists_enclose hqs
      obtain ⟨es', hes, same⟩ := (ih hbody).of_block hbs
      refine ⟨_, .function l' k m n r named params hes, ?_⟩
      simp only [unlined, same]
    | literal | access | assign | function | call | leave | conditional | object | field | setField
    | method => simp [isBlock] at hblock
  | call l callee arguments ih ihs =>
    intro ts hts
    simp only [wellFormed, Bool.and_eq_true] at h
    obtain ⟨l', us, r, rfl, hus⟩ := exists_enclose hts
    obtain ⟨fs, vs, rfl, hfs, hvs⟩ := List.map_eq_append_iff.mp hus
    obtain ⟨f', callee', samef⟩ := ih h.1.2 fs hfs
    have all := fun e he => ihs e he (wellFormedAll_iff.mp h.2 e he)
    obtain ⟨es', hes, same⟩ := respelled_all all hvs
    have starts := startsCall (by simpa using h.1.1) hfs
    exact ⟨_, .call l' r callee' starts hes, by rw [unlined, unlined, samef, same]⟩
  | leave l value ih =>
    intro ts hts
    obtain ⟨l', us, r, rfl, hus⟩ := exists_enclose hts
    obtain ⟨k, vs, rfl, hvs⟩ := exists_cons hus
    obtain ⟨e', value', same⟩ := ih h vs hvs
    exact ⟨_, .leave l' k r value', by rw [unlined, unlined, same]⟩
  | conditional l condition yes no ihc ihy ihn =>
    intro ts hts
    simp only [wellFormed, Bool.and_eq_true] at h
    obtain ⟨l', us, r, rfl, hus⟩ := exists_enclose hts
    obtain ⟨k, vs, rfl, hvs⟩ := exists_cons hus
    rw [List.append_assoc] at hvs
    obtain ⟨cs, ws, rfl, hcs, hws⟩ := List.map_eq_append_iff.mp hvs
    obtain ⟨ys, ns, rfl, hys, hns⟩ := List.map_eq_append_iff.mp hws
    obtain ⟨c', condition', samec⟩ := ihc h.1.1 cs hcs
    obtain ⟨y', yes', samey⟩ := ihy h.1.2 ys hys
    obtain ⟨n', no', samen⟩ := ihn h.2 ns hns
    exact ⟨_, .conditional l' k r condition' yes' no', by rw [unlined, unlined, samec, samey, samen]⟩
  | object l properties ih =>
    intro ts hts
    simp only [wellFormed, Bool.and_eq_true, decide_eq_true_eq] at h
    obtain ⟨l', us, r, rfl, hus⟩ := exists_enclose hts
    obtain ⟨k, vs, rfl, hvs⟩ := exists_cons hus
    have all := fun p hp => ih p hp (wellFormedProperties_iff.mp h.2 p hp).2
    obtain ⟨ps', hps, same⟩ := respelled_properties all hvs
    have names : ps'.map (·.1) = properties.map (·.1) := by
      have := congrArg (List.map (·.1)) same
      simpa [unlinedProperties_eq_map, Function.comp_def] using this
    exact ⟨_, .object l' k r hps (by rw [names]; exact h.1), by rw [unlined, unlined, same]⟩
  | field l receiver x ih =>
    intro ts hts
    simp only [wellFormed, Bool.and_eq_true] at h
    obtain ⟨l', us, r, rfl, hus⟩ := exists_enclose hts
    obtain ⟨k, vs, rfl, hvs⟩ := exists_cons hus
    obtain ⟨rs, ns, rfl, hrs, hns⟩ := List.map_eq_append_iff.mp hvs
    obtain ⟨n, ws, rfl, hws⟩ := exists_cons hns
    obtain rfl := List.map_eq_nil_iff.mp hws
    obtain ⟨e', receiver', same⟩ := ih h.1 rs hrs
    exact ⟨_, .field l' k n r x receiver', by rw [unlined, unlined, same]⟩
  | setField l receiver x value ihr ihv =>
    intro ts hts
    simp only [wellFormed, Bool.and_eq_true] at h
    obtain ⟨l', us, r, rfl, hus⟩ := exists_enclose hts
    obtain ⟨k, vs, rfl, hvs⟩ := exists_cons hus
    obtain ⟨rs, ns, rfl, hrs, hns⟩ := List.map_eq_append_iff.mp hvs
    obtain ⟨n, ws, rfl, hws⟩ := exists_cons hns
    obtain ⟨e', receiver', samer⟩ := ihr h.1.1 rs hrs
    obtain ⟨v', value', samev⟩ := ihv h.2 ws hws
    exact ⟨_, .setField l' k n r x receiver' value', by rw [unlined, unlined, samer, samev]⟩
  | method l receiver x arguments ih ihs =>
    intro ts hts
    simp only [wellFormed, Bool.and_eq_true] at h
    obtain ⟨l', us, r, rfl, hus⟩ := exists_enclose hts
    obtain ⟨k, vs, rfl, hvs⟩ := exists_cons hus
    obtain ⟨rs, ns, rfl, hrs, hns⟩ := List.map_eq_append_iff.mp hvs
    obtain ⟨n, ws, rfl, hws⟩ := exists_cons hns
    obtain ⟨e', receiver', samer⟩ := ih h.1.1 rs hrs
    have all := fun e he => ihs e he (wellFormedAll_iff.mp h.2 e he)
    obtain ⟨es', hes, same⟩ := respelled_all all hws
    exact ⟨_, .method l' k n r x receiver' hes, by rw [unlined, unlined, samer, same]⟩

namespace Script

theorem toList_text (s : Script) :
    s.text.toList = ['\n'].intercalate ((s.forms.map Expr.tokens).map layout) := by
  simp [text, String.toList_intercalate, Expr.text, Function.comp_def]

/-- A well-formed script is read back from its text, up to lines. -/
theorem ofText_text {s : Script} (h : s.wellFormed = true) :
    ∃ t, Script.ofText s.text = .ok t ∧ t.unlined = s.unlined := by
  have forms := Expr.wellFormedAll_iff.mp h
  have writable : ∀ ks ∈ s.forms.map Expr.tokens, ∀ k ∈ ks, k.Writable := by
    intro ks hks
    obtain ⟨e, he, rfl⟩ := List.mem_map.mp hks
    exact Expr.writable_tokens (forms e he)
  obtain ⟨ts, line, found, hts⟩ := Scanner.readings_of_arranged (arranged_lines writable) 1
  rw [← List.flatMap_def, ← Expr.tokensAll_eq_flatMap] at hts
  obtain ⟨es, hes, same⟩ := Expr.respelled_all (fun e he => Expr.respelled (forms e he)) hts
  rw [← toList_text] at found
  exact ⟨⟨es⟩, ofText_eq_ok_iff.mpr ⟨ts, line, found, hes⟩, congrArg Script.mk same⟩

end Script

/-- Writing and reading. Every well-formed script is read back from its text, the same but for
lines; only well-formed scripts are ever read; so to write what was read and to read it again gives
the same script but for lines, and the same text. -/
theorem text_round_trip :
    (∀ s : Script, s.wellFormed = true →
      ∃ t, Script.ofText s.text = .ok t ∧ t.unlined = s.unlined) ∧
    (∀ (source : String) (s : Script), Script.ofText source = .ok s → s.wellFormed = true) ∧
    ∀ (source : String) (s : Script), Script.ofText source = .ok s →
      ∃ t, Script.ofText s.text = .ok t ∧ t.unlined = s.unlined ∧ t.text = s.text := by
  refine ⟨fun s h => s.ofText_text h, fun source s h => Script.wellFormed_of_ofText h, ?_⟩
  intro source s h
  obtain ⟨t, ht, same⟩ := Script.ofText_text (Script.wellFormed_of_ofText h)
  exact ⟨t, ht, same, Script.text_eq_of_unlined_eq same⟩

/-- A function named like a keyword, with a string over two lines in its body. -/
theorem text_round_trip_function : ∃ s t : Script,
    Script.ofText "(fun if (x) \"a;\nb\"\n(f var))" = .ok s ∧ s.wellFormed = true ∧
      Script.ofText s.text = .ok t ∧ t.unlined = s.unlined ∧ t.text = s.text := by
  obtain ⟨s, read⟩ : ∃ s, Script.ofText "(fun if (x) \"a;\nb\"\n(f var))" = .ok s := by
    have lexed : ∀ r ∈ (Scanner.ofText "(fun if (x) \"a;\nb\"\n(f var))").readings,
        r.isOk = true := by decide +kernel
    obtain ⟨last, readings⟩ := Scanner.readings_eq_tokens lexed
    have tokens : (Scanner.ofText "(fun if (x) \"a;\nb\"\n(f var))").tokens =
        enclose 1 (⟨.symbol "fun", 1⟩ :: ([⟨.symbol "if", 1⟩] ++ (enclose 1 [⟨.symbol "x", 1⟩] 1 ++
          ([⟨.string "a;\nb", 1⟩] ++ (enclose 3 ([⟨.symbol "f", 3⟩] ++ ([⟨.symbol "var", 3⟩] ++ [])) 3 ++
            []))))) 3 ++ [] := by decide +kernel
    rw [tokens] at readings
    have starts : StartsCall [⟨.symbol "f", 3⟩] := Expr.startsCall (f := .access 3 "f") rfl rfl
    have call := Spells.call 3 3 (.access 3 "f" (by decide)) starts
      (.exprsCons (.access 3 "var" (by decide)) .exprsNil)
    have body := Spells.exprsCons (.string 1 "a;\nb") (.exprsCons call .exprsNil)
    have named : NamesOn (some "if").toList [⟨.symbol "if", 1⟩] := rfl
    have params : NamesOn ["x"] [⟨.symbol "x", 1⟩] := rfl
    have forms := Spells.exprsCons (.function 1 1 1 1 3 named params body) .exprsNil
    exact ⟨⟨_⟩, Script.ofText_eq_ok_iff.mpr ⟨_, last, readings, forms⟩⟩
  have formed := text_round_trip.2.1 _ _ read
  obtain ⟨t, back, same⟩ := text_round_trip.1 _ formed
  obtain ⟨t', back', -, text⟩ := text_round_trip.2.2 _ _ read
  obtain rfl : t' = t := Except.ok.inj (back'.symm.trans back)
  exact ⟨s, t', read, formed, back, same, text⟩

end Lisplet
