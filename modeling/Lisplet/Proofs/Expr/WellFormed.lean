import Lisplet.Proofs.Expr.Lines
import Lisplet.Proofs.Expr.Parts
import Lisplet.Proofs.Reader.Acceptance
import Lisplet.Proofs.Token.Piece
/-!
Well-formed scripts: their names can be written, no name turns into something else where it stands,
and nothing is lost in writing. Reading gives well-formed scripts only (`wellFormed_of_ofText`), and
they are written in tokens that can be found again (`writable_tokens`).
-/
namespace Lisplet
namespace Expr

/-- The expression is a name that would make a special form of a call. -/
def isKeyword : Expr → Bool
  | .access _ x => (Keyword.ofWord? x).isSome
  | _ => false

mutual
/-- The expression can be written and read back. -/
def wellFormed : Expr → Bool
  | .literal _ (.string s) => !s.toList.contains '"'
  | .literal _ _ => true
  | .block _ body => wellFormedAll body
  | .access _ x => isName x && x != "undefined"
  | .assign _ _ x value => isName x && value.wellFormed
  | .function _ name parameters body =>
    name.toList.all isName && parameters.all isName && body.isBlock && body.wellFormed
  | .call _ callee arguments => !callee.isKeyword && callee.wellFormed && wellFormedAll arguments
  | .leave _ value => value.wellFormed
  | .conditional _ condition yes no => condition.wellFormed && yes.wellFormed && no.wellFormed
  | .object _ properties =>
    decide (properties.map (·.1)).Nodup && wellFormedProperties properties
  | .field _ receiver x => receiver.wellFormed && isName x
  | .setField _ receiver x value => receiver.wellFormed && isName x && value.wellFormed
  | .method _ receiver x arguments => receiver.wellFormed && isName x && wellFormedAll arguments

def wellFormedAll : List Expr → Bool
  | [] => true
  | e :: es => e.wellFormed && wellFormedAll es

def wellFormedProperties : List (String × Expr) → Bool
  | [] => true
  | (x, e) :: properties => isName x && e.wellFormed && wellFormedProperties properties
end

end Expr

/-- The script can be written and read back. -/
def Script.wellFormed (s : Script) : Bool := Expr.wellFormedAll s.forms

/-- What it is for a phrase to be well-formed; properties may still repeat a name. -/
def Phrase.wellFormed : Phrase → Bool
  | .expr e => e.wellFormed
  | .exprs es => Expr.wellFormedAll es
  | .properties ps => Expr.wellFormedProperties ps

theorem Expr.wellFormedAll_iff {es : List Expr} :
    wellFormedAll es = true ↔ ∀ e ∈ es, e.wellFormed = true := by
  induction es with
  | nil => simp [wellFormedAll]
  | cons e es ih => simp [wellFormedAll, ih]

theorem Expr.wellFormedProperties_iff {ps : List (String × Expr)} :
    wellFormedProperties ps = true ↔ ∀ p ∈ ps, isName p.1 = true ∧ p.2.wellFormed = true := by
  induction ps with
  | nil => simp [wellFormedProperties]
  | cons p ps ih => simp [wellFormedProperties, ih]

/-! Reading gives well-formed scripts. -/

theorem NamesOn.all_isName {names : List String} {ts : List Token} (h : NamesOn names ts)
    (writable : ∀ t ∈ ts, t.kind.Writable) : names.all isName = true := by
  rw [List.all_eq_true]
  intro x hx
  have hmem : TokenKind.symbol x ∈ ts.map (·.kind) := by
    rw [h]
    exact List.mem_map_of_mem hx
  obtain ⟨t, ht, hk⟩ := List.mem_map.mp hmem
  have w := writable t ht
  rwa [hk] at w

/-- What a call may start with is no keyword. -/
theorem Spells.isKeyword_eq_false {f : Expr} {fs : List Token} (h : Spells (.expr f) fs)
    (starts : StartsCall fs) : f.isKeyword = false := by
  cases h with
  | access l x hx =>
    have apart := (starts ⟨.symbol x, l⟩ rfl).2
    cases hk : Keyword.ofWord? x with
    | none => simp [Expr.isKeyword, hk]
    | some k => exact absurd (congrArg TokenKind.symbol (Keyword.word_of_ofWord? hk).symm) (apart k)
  | _ => rfl

/-- Tokens that can be written spell nothing but what is well-formed. -/
theorem Spells.wellFormed {phrase : Phrase} {ts : List Token} (h : Spells phrase ts)
    (writable : ∀ t ∈ ts, t.kind.Writable) : phrase.wellFormed = true := by
  induction h with
  | integer | undefined | leaveEmpty | exprsNil | propertiesNil => rfl
  | string l s =>
    have w : '"' ∉ s.toList := writable ⟨.string s, l⟩ (by simp)
    simp [Phrase.wellFormed, Expr.wellFormed, w]
  | access l x hx =>
    have w : isName x = true := writable ⟨.symbol x, l⟩ (by simp)
    simp [Phrase.wellFormed, Expr.wellFormed, w, hx]
  | block l k r _ ih => exact ih fun t ht => writable t (by simp [enclose, ht])
  | assign l k n r mode x _ ih =>
    have w : isName x = true := writable ⟨.symbol x, n⟩ (by simp [enclose])
    have value := ih fun t ht => writable t (by simp [enclose, ht])
    simp_all [Phrase.wellFormed, Expr.wellFormed]
  | function l k m n r named params _ ih =>
    have body := ih fun t ht => writable t (by simp [enclose, ht])
    have name := named.all_isName fun t ht => writable t (by simp [enclose, ht])
    have parameters := params.all_isName fun t ht => writable t (by simp [enclose, ht])
    simp only [Phrase.wellFormed] at body
    simp only [Phrase.wellFormed, Expr.wellFormed, name, parameters, Expr.isBlock, body, Bool.and_self]
  | call l r callee starts _ ihf ihs =>
    have head := ihf fun t ht => writable t (by simp [enclose, ht])
    have arguments := ihs fun t ht => writable t (by simp [enclose, ht])
    simp_all [Phrase.wellFormed, Expr.wellFormed, callee.isKeyword_eq_false starts]
  | leave l k r _ ih => exact ih fun t ht => writable t (by simp [enclose, ht])
  | conditionalShort l k r _ _ ihc iht =>
    have condition := ihc fun t ht => writable t (by simp [enclose, ht])
    have yes := iht fun t ht => writable t (by simp [enclose, ht])
    simp_all [Phrase.wellFormed, Expr.wellFormed, Expr.wellFormedAll]
  | conditional l k r _ _ _ ihc iht ihe =>
    have condition := ihc fun t ht => writable t (by simp [enclose, ht])
    have yes := iht fun t ht => writable t (by simp [enclose, ht])
    have no := ihe fun t ht => writable t (by simp [enclose, ht])
    simp_all [Phrase.wellFormed, Expr.wellFormed]
  | object l k r _ distinct ih =>
    have properties := ih fun t ht => writable t (by simp [enclose, ht])
    simp_all [Phrase.wellFormed, Expr.wellFormed]
  | field l k n r x _ ih =>
    have w : isName x = true := writable ⟨.symbol x, n⟩ (by simp [enclose])
    have receiver := ih fun t ht => writable t (by simp [enclose, ht])
    simp_all [Phrase.wellFormed, Expr.wellFormed]
  | setField l k n r x _ _ ihr ihv =>
    have w : isName x = true := writable ⟨.symbol x, n⟩ (by simp [enclose])
    have receiver := ihr fun t ht => writable t (by simp [enclose, ht])
    have value := ihv fun t ht => writable t (by simp [enclose, ht])
    simp_all [Phrase.wellFormed, Expr.wellFormed]
  | method l k n r x _ _ ihr ihs =>
    have w : isName x = true := writable ⟨.symbol x, n⟩ (by simp [enclose])
    have receiver := ihr fun t ht => writable t (by simp [enclose, ht])
    have arguments := ihs fun t ht => writable t (by simp [enclose, ht])
    simp_all [Phrase.wellFormed, Expr.wellFormed]
  | exprsCons _ _ ihe ihs =>
    have head := ihe fun t ht => writable t (by simp [ht])
    have tail := ihs fun t ht => writable t (by simp [ht])
    simp_all [Phrase.wellFormed, Expr.wellFormedAll]
  | propertiesCons l n r x _ _ ihe ihs =>
    have w : isName x = true := writable ⟨.symbol x, n⟩ (by simp [enclose])
    have value := ihe fun t ht => writable t (by simp [enclose, ht])
    have tail := ihs fun t ht => writable t (by simp [ht])
    simp_all [Phrase.wellFormed, Expr.wellFormedProperties]

/-- The tokens of a text can be written. -/
theorem Scanner.writable_of_mem_readings {s : Scanner} {t : Token} (h : .ok t ∈ s.readings)
    (more : t.kind ≠ .eof) : t.kind.Writable := by
  fun_induction readings s with
  | case1 s ended =>
    rw [List.mem_singleton] at h
    exact writable_of_next (Prod.ext h.symm rfl) more
  | case2 s _ ih =>
    rcases List.mem_cons.mp h with now | later
    · exact writable_of_next (Prod.ext now.symm rfl) more
    · exact ih later

/-- Every script that is read is well-formed. -/
theorem Script.wellFormed_of_ofText {text : String} {s : Script} (h : Script.ofText text = .ok s) :
    s.wellFormed = true := by
  obtain ⟨ts, last, hread, hs⟩ := Script.ofText_eq_ok_iff.mp h
  obtain ⟨c, hc⟩ := (Scanner.ofText text).exists_scans
  have readings : c.readings ++ [.ok ⟨.eof, c.last⟩] = ts.map .ok ++ [.ok ⟨.eof, last⟩] := by
    rw [← hc, hread]
    simp
  have hts : c.readings = ts.map .ok := (List.append_inj' readings rfl).1
  refine hs.wellFormed fun t ht => ?_
  have mem : .ok t ∈ c.readings := by
    rw [hts]
    exact List.mem_map_of_mem ht
  refine Scanner.writable_of_mem_readings (s := Scanner.ofText text) ?_ ?_
  · rw [hc]
    exact List.mem_append_left _ mem
  · simpa using hc.not_isEnd (.ok t) mem

/-! Writing gives tokens that can be written. -/

@[simp] theorem writable_symbol {x : String} :
    (TokenKind.symbol x).Writable ↔ isName x = true := Iff.rfl

@[simp] theorem Keyword.writable_token (k : Keyword) : k.token.Writable := by
  change isName k.word = true
  rcases k with _ | (_ | _) | _ | _ | _ | _ | _ | _ | _ <;> decide +kernel

/-- Parentheses can always be written. -/
@[simp] theorem forall_mem_parens {ks : List TokenKind} :
    (∀ k ∈ parens ks, k.Writable) ↔ ∀ k ∈ ks, k.Writable := by
  simp [parens, TokenKind.Writable, or_imp, forall_and]

namespace Expr

theorem writable_tokensAll {es : List Expr} (h : ∀ e ∈ es, ∀ k ∈ e.tokens, k.Writable) :
    ∀ k ∈ tokensAll es, k.Writable := by
  rw [tokensAll_eq_flatMap]
  intro k hk
  obtain ⟨e, he, hk⟩ := List.mem_flatMap.mp hk
  exact h e he k hk

theorem writable_tokensProperties {ps : List (String × Expr)}
    (h : ∀ p ∈ ps, isName p.1 = true ∧ ∀ k ∈ p.2.tokens, k.Writable) :
    ∀ k ∈ tokensProperties ps, k.Writable := by
  rw [tokensProperties_eq_flatMap]
  intro k hk
  obtain ⟨p, hp, hk⟩ := List.mem_flatMap.mp hk
  refine forall_mem_parens.mpr ?_ k hk
  exact List.forall_mem_cons.mpr (h p hp)

/-- A well-formed expression is written in tokens that can be written. -/
theorem writable_tokens {e : Expr} (h : e.wellFormed = true) : ∀ k ∈ e.tokens, k.Writable := by
  have names : ∀ {xs : List String}, xs.all isName = true →
      ∀ k ∈ xs.map TokenKind.symbol, k.Writable := by
    intro xs hxs
    simpa using hxs
  induction e using Expr.induction with
  | literal l v =>
    cases v with
    | undefined =>
      have word : isName Literal.undefinedWord = true := by decide +kernel
      simpa [tokens, Literal.token] using word
    | integer v => simp [tokens, Literal.token, TokenKind.Writable]
    | string s => simpa [tokens, Literal.token, TokenKind.Writable, wellFormed] using h
  | block l body ih =>
    have hbody := writable_tokensAll fun e he => ih e he (wellFormedAll_iff.mp h e he)
    simpa [tokens] using hbody
  | access l x =>
    simp only [wellFormed, Bool.and_eq_true] at h
    simpa [tokens] using h.1
  | assign l mode x value ih =>
    simp only [wellFormed, Bool.and_eq_true] at h
    simpa [tokens, h.1] using ih h.2
  | function l name parameters body ih =>
    simp only [wellFormed, Bool.and_eq_true] at h
    obtain ⟨⟨⟨hname, hparameters⟩, hblock⟩, hbody⟩ := h
    cases body with
    | block l' es =>
      have hes : ∀ k ∈ tokensAll es, k.Writable := by simpa [tokens] using ih hbody
      have hparameters := forall_mem_parens.mpr (names hparameters)
      rw [tokens, forall_mem_parens]
      simp only [List.forall_mem_cons, List.forall_mem_append]
      exact ⟨Keyword.writable_token _, ⟨names hname, hparameters⟩, hes⟩
    | literal | access | assign | function | call | leave | conditional | object | field | setField
    | method => simp [isBlock] at hblock
  | call l callee arguments ih ihs =>
    simp only [wellFormed, Bool.and_eq_true] at h
    have hs := writable_tokensAll fun e he => ihs e he (wellFormedAll_iff.mp h.2 e he)
    rw [tokens, forall_mem_parens, List.forall_mem_append]
    exact ⟨ih h.1.2, hs⟩
  | leave l value ih => simpa [tokens] using ih h
  | conditional l condition yes no ihc ihy ihn =>
    simp only [wellFormed, Bool.and_eq_true] at h
    rw [tokens, forall_mem_parens]
    simp only [List.forall_mem_cons, List.forall_mem_append]
    exact ⟨Keyword.writable_token _, ⟨ihc h.1.1, ihy h.1.2⟩, ihn h.2⟩
  | object l properties ih =>
    simp only [wellFormed, Bool.and_eq_true] at h
    have hall := wellFormedProperties_iff.mp h.2
    have hs := writable_tokensProperties fun p hp => ⟨(hall p hp).1, ih p hp (hall p hp).2⟩
    rw [tokens, forall_mem_parens]
    exact List.forall_mem_cons.mpr ⟨Keyword.writable_token _, hs⟩
  | field l receiver x ih =>
    simp only [wellFormed, Bool.and_eq_true] at h
    rw [tokens, forall_mem_parens]
    simp only [List.forall_mem_cons, List.forall_mem_append]
    exact ⟨Keyword.writable_token _, ih h.1, h.2, by simp⟩
  | setField l receiver x value ihr ihv =>
    simp only [wellFormed, Bool.and_eq_true] at h
    rw [tokens, forall_mem_parens]
    simp only [List.forall_mem_cons, List.forall_mem_append]
    exact ⟨Keyword.writable_token _, ihr h.1.1, h.1.2, ihv h.2⟩
  | method l receiver x arguments ih ihs =>
    simp only [wellFormed, Bool.and_eq_true] at h
    have hs := writable_tokensAll fun e he => ihs e he (wellFormedAll_iff.mp h.2 e he)
    rw [tokens, forall_mem_parens]
    simp only [List.forall_mem_cons, List.forall_mem_append]
    exact ⟨Keyword.writable_token _, ih h.1.1, h.1.2, hs⟩

end Expr
end Lisplet
