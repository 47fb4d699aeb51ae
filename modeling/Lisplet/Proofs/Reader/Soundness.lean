import Lisplet.Proofs.Reader.Cursor
import Lisplet.Proofs.Reader.Grammar
/-!
The reader reads nothing but what the grammar spells. An open form is known by the tokens that have
been read of it: `Frame.Opened` says which tokens these can be, and every move of a frame keeps to
it, down to the parenthesis that closes the form and so completes an expression of the grammar.
-/
namespace Lisplet

/-- The beginning of a special form. -/
def special (l k : Nat) (w : Keyword) (ts : List Token) : List Token :=
  ⟨.leftParen, l⟩ :: ⟨w.token, k⟩ :: ts

/-- The keyword of the form that makes this use of a member. -/
def MemberUse.keyword : MemberUse → Keyword
  | .read => .field
  | .write => .setField
  | .invoke => .method

/-- The tokens are what comes before the collected operands. -/
def Collection.Opened (l : Nat) : Collection → List Token → Prop
  | .block, ts => ∃ k, ts = special l k .block []
  | .arguments f, ts => ∃ fs, ts = ⟨.leftParen, l⟩ :: fs ∧ Spells (.expr f) fs ∧ StartsCall fs
  | .body name parameters, ts => ∃ k m n fs ps, ts = special l k .function (fs ++ enclose m ps n) ∧
      NamesOn name.toList fs ∧ NamesOn parameters ps
  | .methodArguments e x, ts => ∃ k n us, ts = special l k .method (us ++ [⟨.symbol x, n⟩]) ∧
      Spells (.expr e) us

/-- The tokens are an object form up to somewhere between its properties. -/
def PropertiesOpened (l : Nat) (held : List (String × Expr)) (ts : List Token) : Prop :=
  ∃ k us, ts = special l k .object us ∧ Spells (.properties held.reverse) us ∧
    (held.map (·.1)).Nodup

/-- The tokens are what has been read of the form up to the place of the operand. -/
def Hole.Opened : Hole → List Token → Prop
  | .callee l, ts => ts = [⟨.leftParen, l⟩]
  | .operands l collection held, ts => ∃ as bs, ts = as ++ bs ∧ collection.Opened l as ∧
      Spells (.exprs held.reverse) bs
  | .assigned l mode x, ts => ∃ k n, ts = special l k (.assign mode) [⟨.symbol x, n⟩]
  | .returned l, ts => ∃ k, ts = special l k .leave []
  | .condition l, ts => ∃ k, ts = special l k .conditional []
  | .thenBranch l c, ts => ∃ k cs, ts = special l k .conditional cs ∧ Spells (.expr c) cs
  | .elseBranch l c t, ts => ∃ k cs us, ts = special l k .conditional (cs ++ us) ∧
      Spells (.expr c) cs ∧ Spells (.expr t) us
  | .property l held x, ts => ∃ as m n, ts = as ++ [⟨.leftParen, m⟩, ⟨.symbol x, n⟩] ∧
      PropertiesOpened l held as ∧ x ∉ held.map (·.1)
  | .receiver l use, ts => ∃ k, ts = special l k use.keyword []
  | .member l e x, ts => ∃ k n us, ts = special l k .setField (us ++ [⟨.symbol x, n⟩]) ∧
      Spells (.expr e) us

/-- The tokens are what has been read of the form. -/
def Frame.Opened : Frame → List Token → Prop
  | .operand hole, ts => hole.Opened ts
  | .assignedName l mode, ts => ∃ k, ts = special l k (.assign mode) []
  | .functionHead l, ts => ∃ k, ts = special l k .function []
  | .parametersStart l x, ts => ∃ k n, ts = special l k .function [⟨.symbol x, n⟩]
  | .parameters l name held, ts => ∃ k m fs ps,
      ts = special l k .function (fs ++ ⟨.leftParen, m⟩ :: ps) ∧ NamesOn name.toList fs ∧
        NamesOn held.reverse ps
  | .properties l held, ts => PropertiesOpened l held ts
  | .propertyName l held start, ts => ∃ as, ts = as ++ [⟨.leftParen, start⟩] ∧
      PropertiesOpened l held as
  | .propertyEnd l held x e, ts => ∃ as m n us,
      ts = as ++ ⟨.leftParen, m⟩ :: ⟨.symbol x, n⟩ :: us ∧ PropertiesOpened l held as ∧
        x ∉ held.map (·.1) ∧ Spells (.expr e) us
  | .memberName l use e, ts => ∃ k us, ts = special l k use.keyword us ∧ Spells (.expr e) us
  | .complete _ whole, ts => ∀ r, Spells (.expr whole) (ts ++ [⟨.rightParen, r⟩])

theorem Frame.opened_ofKeyword (l k : Nat) (w : Keyword) :
    (Frame.ofKeyword l w).Opened [⟨.leftParen, l⟩, ⟨w.token, k⟩] := by
  cases w with
  | block => exact ⟨_, [], rfl, ⟨k, rfl⟩, .exprsNil⟩
  | object => exact ⟨k, [], rfl, .propertiesNil, .nil⟩
  | assign | function | leave | conditional | field | setField | method => exact ⟨k, rfl⟩

/-- Filling the place of an operand adds the operand's tokens. -/
theorem Hole.Opened.fill {hole : Hole} {ts us : List Token} {e : Expr} (h : hole.Opened ts)
    (he : Spells (.expr e) us) (start : ∀ l, hole = .callee l → StartsCall us) :
    (hole.fill e).Opened (ts ++ us) := by
  cases hole with
  | callee l =>
    subst h
    exact ⟨_, [], (List.append_nil _).symm, ⟨us, rfl, he, start l rfl⟩, .exprsNil⟩
  | operands l collection held =>
    obtain ⟨as, bs, rfl, hopen, hs⟩ := h
    refine ⟨as, bs ++ us, List.append_assoc .., hopen, ?_⟩
    rw [List.reverse_cons]
    exact hs.exprs_snoc he
  | assigned l mode x =>
    obtain ⟨k, n, rfl⟩ := h
    exact fun r => .assign l k n r mode x he
  | returned l =>
    obtain ⟨k, rfl⟩ := h
    exact fun r => .leave l k r he
  | condition l =>
    obtain ⟨k, rfl⟩ := h
    exact ⟨k, us, rfl, he⟩
  | thenBranch l c =>
    obtain ⟨k, cs, rfl, hc⟩ := h
    exact ⟨k, cs, us, rfl, hc, he⟩
  | elseBranch l c t =>
    obtain ⟨k, cs, vs, rfl, hc, ht⟩ := h
    intro r
    simpa [special, enclose] using Spells.conditional l k r hc ht he
  | property l held x =>
    obtain ⟨as, m, n, rfl, hopen, hx⟩ := h
    exact ⟨as, m, n, us, by simp, hopen, hx, he⟩
  | receiver l use =>
    obtain ⟨k, rfl⟩ := h
    exact ⟨k, us, rfl, he⟩
  | member l receiver x =>
    obtain ⟨k, n, vs, rfl, hr⟩ := h
    intro r
    simpa [special, enclose] using Spells.setField l k n r x hr he

/-- The operands that have been collected make an expression. -/
theorem Collection.Opened.build {l : Nat} {collection : Collection} {as bs : List Token}
    {es : List Expr} (h : collection.Opened l as) (hs : Spells (.exprs es) bs) (r : Nat) :
    Spells (.expr (collection.build l es)) (as ++ (bs ++ [⟨.rightParen, r⟩])) := by
  cases collection with
  | block =>
    obtain ⟨k, rfl⟩ := h
    exact .block l k r hs
  | arguments f =>
    obtain ⟨fs, rfl, hf, start⟩ := h
    simpa [enclose, Collection.build] using Spells.call l r hf start hs
  | body name parameters =>
    obtain ⟨k, m, n, fs, ps, rfl, named, params⟩ := h
    simpa [special, enclose, Collection.build] using Spells.function l k m n r named params hs
  | methodArguments e x =>
    obtain ⟨k, n, us, rfl, he⟩ := h
    simpa [special, enclose, Collection.build] using Spells.method l k n r x he hs

/-- A closing parenthesis in place of an operand ends the form, where it may. -/
theorem Hole.Opened.close {hole : Hole} {ts : List Token} {e : Expr} (h : hole.Opened ts)
    (hc : hole.close = some (.finish e)) (r : Nat) :
    Spells (.expr e) (ts ++ [⟨.rightParen, r⟩]) := by
  cases hole with
  | operands l collection held =>
    obtain ⟨as, bs, rfl, hopen, hs⟩ := h
    cases hc
    rw [List.append_assoc]
    exact hopen.build hs r
  | returned l =>
    obtain ⟨k, rfl⟩ := h
    cases hc
    exact .leaveEmpty l k r
  | elseBranch l c t =>
    obtain ⟨k, cs, us, rfl, hcond, ht⟩ := h
    cases hc
    simpa [special, enclose] using Spells.conditionalShort l k r hcond ht
  | callee | assigned | condition | thenBranch | property | receiver | member => cases hc

/-- A single token that is an expression is spelled by itself. -/
theorem Token.spells_atom {t : Token} {e : Expr} (h : t.atom? = some e) : Spells (.expr e) [t] := by
  rcases t with ⟨kind, line⟩
  cases kind with
  | integer v =>
    cases h
    exact .integer line v
  | string s =>
    cases h
    exact .string line s
  | symbol s =>
    by_cases hs : s = "undefined"
    · subst hs
      cases h
      exact .undefined line
    · obtain rfl : Expr.access line s = e := by
        simpa [Token.atom?, Literal.undefinedWord, hs] using h
      exact .access line s hs
  | leftParen | rightParen | eof => cases h

theorem Token.startsCall_atom {t : Token} {e : Expr} {l : Nat} (h : t.atom? = some e)
    (hs : Frame.special? (.callee l) t.kind = none) : StartsCall [t] := by
  rintro _ ⟨rfl⟩
  constructor
  · intro hk
    simp [Token.atom?, hk] at h
  · intro w hk
    simp [Frame.special?, hk, Keyword.token] at hs

/-- The move is right for a form of which `ts` have been read and that is shown the token `t`. -/
def Move.Sound (ts : List Token) (t : Token) : Move → Prop
  | .shift frame => frame.Opened (ts ++ [t])
  | .descend hole => hole.Opened ts ∧ t.kind = .leftParen
  | .finish whole => t.kind = .rightParen ∧ Spells (.expr whole) (ts ++ [t])
  | .refuse _ _ => True

theorem Hole.Opened.see {hole : Hole} {ts : List Token} {t : Token} (h : hole.Opened ts)
    (more : t.kind ≠ .eof) : (Frame.seeOperand hole t).Sound ts t := by
  unfold Frame.seeOperand
  split
  · next frame hs =>
    -- only behind an opening parenthesis is a keyword special
    cases hole with
    | callee l =>
      rcases t with ⟨kind, line⟩
      cases kind with
      | symbol s =>
        obtain ⟨w, hw, rfl⟩ := Option.map_eq_some_iff.mp hs
        obtain rfl := Keyword.word_of_ofWord? hw
        subst h
        exact Frame.opened_ofKeyword l line w
      | leftParen | rightParen | integer | string | eof => cases hs
    | operands | assigned | returned | condition | thenBranch | elseBranch | property | receiver
    | member => cases hs
  · next hs =>
    split
    · next e ha =>
      refine h.fill (Token.spells_atom ha) ?_
      rintro l rfl
      exact Token.startsCall_atom ha hs
    · next ha =>
      split
      · next hk => exact ⟨h, hk⟩
      · next hk =>
        rcases t with ⟨kind, line⟩
        obtain rfl : kind = .rightParen := by
          cases kind with
          | rightParen => rfl
          | leftParen => exact absurd rfl hk
          | eof => exact absurd rfl more
          | integer | string => cases ha
          | symbol s => simp only [Token.atom?] at ha; split at ha <;> cases ha
        cases hc : hole.close with
        | none => trivial
        | some move =>
          cases move with
          | finish e => exact ⟨rfl, h.close hc line⟩
          | refuse => trivial
          | shift | descend => cases hole <;> cases hc

theorem Frame.sound_takeName {ts : List Token} {t : Token} {next : String → Move}
    (h : ∀ x, t.kind = .symbol x → (next x).Sound ts t) : (Frame.takeName t next).Sound ts t := by
  unfold Frame.takeName
  split
  · next x hx => exact h x hx
  · trivial

/-- Every move of an open form keeps to what has been read of it. -/
theorem Frame.Opened.see {frame : Frame} {ts : List Token} {t : Token} (h : frame.Opened ts)
    (more : t.kind ≠ .eof) : (frame.see t).Sound ts t := by
  rcases t with ⟨kind, line⟩
  cases frame with
  | operand hole => exact Hole.Opened.see h more
  | assignedName l mode =>
    obtain ⟨k, rfl⟩ := h
    simp only [Frame.see]
    split
    · trivial
    · refine Frame.sound_takeName ?_
      rintro x ⟨rfl⟩
      exact ⟨k, line, rfl⟩
  | functionHead l =>
    obtain ⟨k, rfl⟩ := h
    cases kind with
    | symbol x => exact ⟨k, line, rfl⟩
    | leftParen => exact ⟨k, line, [], [], rfl, rfl, rfl⟩
    | rightParen | integer | string | eof => trivial
  | parametersStart l x =>
    obtain ⟨k, n, rfl⟩ := h
    simp only [Frame.see]
    split
    · next hk =>
      obtain rfl : kind = .leftParen := hk
      exact ⟨k, line, [⟨.symbol x, n⟩], [], rfl, rfl, rfl⟩
    · trivial
  | parameters l name held =>
    obtain ⟨k, m, fs, ps, rfl, named, params⟩ := h
    simp only [Frame.see]
    split
    · next hk =>
      obtain rfl : kind = .rightParen := hk
      exact ⟨_, [], (List.append_nil _).symm,
        ⟨k, m, line, fs, ps, by simp [special, enclose], named, params⟩, .exprsNil⟩
    · refine Frame.sound_takeName ?_
      rintro x ⟨rfl⟩
      refine ⟨k, m, fs, ps ++ [⟨.symbol x, line⟩], by simp [special], named, ?_⟩
      simpa [NamesOn] using params
  | properties l held =>
    cases kind with
    | rightParen =>
      obtain ⟨k, us, rfl, hs, distinct⟩ := h
      refine ⟨rfl, .object l k line hs ?_⟩
      rw [List.map_reverse]
      exact List.pairwise_reverse.mpr (distinct.imp Ne.symm)
    | leftParen => exact ⟨ts, rfl, h⟩
    | symbol | integer | string | eof => trivial
  | propertyName l held start =>
    obtain ⟨as, rfl, hopen⟩ := h
    refine Frame.sound_takeName ?_
    rintro x ⟨rfl⟩
    split
    · trivial
    · next hx => exact ⟨as, start, line, by simp, hopen, by simpa using hx⟩
  | propertyEnd l held x e =>
    obtain ⟨as, m, n, us, rfl, ⟨k, vs, rfl, hs, distinct⟩, hx, he⟩ := h
    simp only [Frame.see]
    split
    · next hk =>
      obtain rfl : kind = .rightParen := hk
      refine ⟨k, vs ++ enclose m (⟨.symbol x, n⟩ :: us) line, by simp [special, enclose], ?_, ?_⟩
      · rw [List.reverse_cons]
        simpa using hs.properties_append (.propertiesCons m n line x he .propertiesNil)
      · exact List.nodup_cons.mpr ⟨hx, distinct⟩
    · trivial
  | memberName l use e =>
    obtain ⟨k, us, rfl, he⟩ := h
    refine Frame.sound_takeName ?_
    rintro x ⟨rfl⟩
    cases use with
    | read =>
      intro r
      simpa [special, enclose, MemberUse.keyword] using Spells.field l k line r x he
    | write => exact ⟨k, line, us, rfl, he⟩
    | invoke => exact ⟨_, [], (List.append_nil _).symm, ⟨k, line, us, rfl, he⟩, .exprsNil⟩
  | complete w whole =>
    simp only [Frame.see]
    split
    · next hk =>
      obtain rfl : kind = .rightParen := hk
      exact ⟨rfl, h line⟩
    · trivial

/-- An expression that ends in a closing parenthesis starts with an opening one, and so can be a
callee. -/
theorem Spells.startsCall {e : Expr} {ts : List Token} (h : Spells (.expr e) ts)
    (close : ∀ t ∈ ts.getLast?, t.kind = .rightParen) : StartsCall ts := by
  cases h with
  | integer | string | undefined | access => simp at close
  | block | assign | function | call | leaveEmpty | leave | conditionalShort | conditional | object
  | field | setField | method =>
    rintro _ ⟨rfl⟩
    simp [Keyword.token]

/-- The tokens are what has been read of the forms that wait, outermost first. -/
def Waiting : List Hole → List Token → Prop
  | [], ts => ts = []
  | hole :: outer, ts => ∃ as bs, ts = as ++ bs ∧ Waiting outer as ∧ hole.Opened bs

namespace Reader

/-- Reading on until the outermost form is closed completes an expression of the grammar; all the
readings that are taken for it are tokens. -/
theorem readForm_sound {frame : Frame} {outer : List Hole} {as bs : List Token}
    {rs rs' : List Reading} {last last' : Nat} {e : Expr} (wait : Waiting outer as)
    (opened : frame.Opened bs) (read : readForm frame outer (⟨rs, last⟩ : Cursor) = (.ok e, ⟨rs', last'⟩)) :
    last' = last ∧ ∃ ts, rs = ts.map .ok ++ rs' ∧ Spells (.expr e) (as ++ bs ++ ts) := by
  induction rs generalizing frame outer as bs with
  | nil =>
    rw [readForm_end rfl rfl] at read
    cases read
  | cons r rs ih =>
    cases r with
    | error err =>
      rw [readForm_error rfl] at read
      cases read
    | ok t =>
      by_cases ended : t.kind = .eof
      · rw [readForm_end rfl ended] at read
        cases read
      · have sound := opened.see ended
        rw [readForm_token rfl ended] at read
        cases see : frame.see t with
        | shift frame' =>
          rw [see] at read sound
          obtain ⟨rfl, ts, rfl, hs⟩ := ih wait sound read
          exact ⟨rfl, t :: ts, rfl, by simpa using hs⟩
        | descend hole =>
          rw [see] at read sound
          obtain ⟨hole_opened, hk⟩ := sound
          have wait' : Waiting (hole :: outer) (as ++ bs) := ⟨as, bs, rfl, wait, hole_opened⟩
          have opened' : (Frame.operand (.callee t.line)).Opened [t] := by
            rcases t with ⟨kind, line⟩
            exact congrArg (fun k => [Token.mk k line]) hk
          obtain ⟨rfl, ts, rfl, hs⟩ := ih wait' opened' read
          exact ⟨rfl, t :: ts, rfl, by simpa using hs⟩
        | finish whole =>
          rw [see] at read sound
          cases outer with
          | nil =>
            obtain rfl : as = [] := wait
            cases read
            exact ⟨rfl, [t], rfl, sound.2⟩
          | cons hole outer =>
            obtain ⟨cs, ds, rfl, wait', hole_opened⟩ := wait
            have start := sound.2.startsCall (by simpa using sound.1)
            obtain ⟨rfl, ts, rfl, hs⟩ :=
              ih wait' (hole_opened.fill sound.2 fun _ _ => start) read
            exact ⟨rfl, t :: ts, rfl, by simpa using hs⟩
        | refuse err kept =>
          rw [see] at read
          cases read

theorem readExpr_sound {rs rs' : List Reading} {last last' : Nat} {e : Expr}
    (read : readExpr (⟨rs, last⟩ : Cursor) = (.ok e, ⟨rs', last'⟩)) :
    last' = last ∧ ∃ ts, rs = ts.map .ok ++ rs' ∧ Spells (.expr e) ts := by
  rcases rs with _ | ⟨err | t, rs⟩
  · cases read
  · cases read
  · have look : TokenSource.peek (⟨.ok t :: rs, last⟩ : Cursor) =
        (.ok t, ⟨.ok t :: rs, last⟩) := rfl
    simp only [readExpr, look] at read
    split at read
    · next e' ha =>
      cases read
      exact ⟨rfl, [t], rfl, Token.spells_atom ha⟩
    · split at read
      · next hk =>
        have opened : (Frame.operand (.callee t.line)).Opened [t] := by
          rcases t with ⟨kind, line⟩
          exact congrArg (fun k => [Token.mk k line]) hk
        have bottom : Waiting [] [] := rfl
        obtain ⟨rfl, ts, hrs, hs⟩ := readForm_sound bottom opened read
        exact ⟨rfl, t :: ts, congrArg (_ :: ·) hrs, hs⟩
      · cases read
      · cases read

/-- A script that was read up to the end is spelled by the tokens before the end. -/
theorem readForms_sound {held : List Expr} {c c' : Cursor} {s : Script}
    (read : readForms held c = (.ok s, c')) :
    ∃ ts es rest, c.readings = ts.map .ok ++ rest ∧ (∀ r ∈ rest.head?, r.isEnd = true) ∧
      Spells (.exprs es) ts ∧ s.forms = held.reverse ++ es := by
  fun_induction readForms held c with
  | case1 => cases read
  | case2 held c t c'' look ended =>
    cases read
    refine ⟨[], [], c.readings, rfl, ?_, .exprsNil, (List.append_nil _).symm⟩
    rcases c with ⟨_ | ⟨r, rs⟩, last⟩
    · simp
    · cases look
      simpa using ended
  | case3 held c t c₁ look more e c₂ hread ih =>
    obtain rfl : c = c₁ := congrArg Prod.snd look
    obtain ⟨rs, last⟩ := c₂
    obtain ⟨rfl, ts, hts, he⟩ := readExpr_sound hread
    obtain ⟨us, es, rest, hus, hrest, hes, hforms⟩ := ih read
    refine ⟨ts ++ us, e :: es, rest, ?_, hrest, .exprsCons he hes, ?_⟩
    · have hus : rs = us.map .ok ++ rest := hus
      rw [hts, hus]
      simp
    · simpa using hforms
  | case4 => cases read

end Reader
end Lisplet
