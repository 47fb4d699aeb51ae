import Lisplet.Expr.Printer
/-!
Expressions up to their lines. However the lines of an expression are changed, it is written alike
(`tokens_mapLines`). So are two expressions that are the same but for lines, that is, equal once every
line is set to the same number (`tokens_unlined`). Expressions hold lists of expressions, so induction
over them has its own rule, which gives the hypothesis for every member of such a list
(`Expr.induction`).
-/
namespace Lisplet
namespace Expr

@[elab_as_elim]
theorem induction {motive : Expr → Prop}
    (literal : ∀ l v, motive (.literal l v))
    (block : ∀ l body, (∀ e ∈ body, motive e) → motive (.block l body))
    (access : ∀ l x, motive (.access l x))
    (assign : ∀ l mode x value, motive value → motive (.assign l mode x value))
    (function : ∀ l name parameters body, motive body → motive (.function l name parameters body))
    (call : ∀ l callee arguments, motive callee → (∀ e ∈ arguments, motive e) →
      motive (.call l callee arguments))
    (leave : ∀ l value, motive value → motive (.leave l value))
    (conditional : ∀ l condition yes no, motive condition → motive yes → motive no →
      motive (.conditional l condition yes no))
    (object : ∀ l properties, (∀ p ∈ properties, motive p.2) → motive (.object l properties))
    (field : ∀ l receiver x, motive receiver → motive (.field l receiver x))
    (setField : ∀ l receiver x value, motive receiver → motive value →
      motive (.setField l receiver x value))
    (method : ∀ l receiver x arguments, motive receiver → (∀ e ∈ arguments, motive e) →
      motive (.method l receiver x arguments)) (e : Expr) : motive e := by
  refine @Expr.rec motive (fun es => ∀ e ∈ es, motive e) (fun ps => ∀ p ∈ ps, motive p.2)
    (fun p => motive p.2) literal block access assign function call leave conditional object field
    setField method ?_ ?_ ?_ ?_ ?_ e
  · simp
  · rintro head tail hhead htail e (_ | ⟨_, he⟩)
    · exact hhead
    · exact htail e he
  · simp
  · rintro head tail hhead htail p (_ | ⟨_, hp⟩)
    · exact hhead
    · exact htail p hp
  · exact fun _ _ h => h

theorem tokensAll_eq_flatMap (es : List Expr) : tokensAll es = es.flatMap tokens := by
  induction es with
  | nil => rfl
  | cons e es ih => rw [tokensAll, ih, List.flatMap_cons]

theorem tokensProperties_eq_flatMap (ps : List (String × Expr)) :
    tokensProperties ps = ps.flatMap fun p => parens (.symbol p.1 :: tokens p.2) := by
  induction ps with
  | nil => rfl
  | cons p ps ih => rw [tokensProperties, ih, List.flatMap_cons]

/-- A function whose body is no block. -/
theorem tokens_function {l : Nat} {name : Option String} {parameters : List String} {body : Expr}
    (h : ∀ l es, body ≠ .block l es) : tokens (.function l name parameters body) =
      parens (Keyword.function.token :: (name.toList.map .symbol ++
        parens (parameters.map .symbol) ++ tokens body)) := by
  rw [tokens]
  exact h

mutual
/-- The expression with every line changed. -/
def mapLines (f : Nat → Nat) : Expr → Expr
  | .literal l v => .literal (f l) v
  | .block l body => .block (f l) (mapLinesAll f body)
  | .access l x => .access (f l) x
  | .assign l mode x value => .assign (f l) mode x (value.mapLines f)
  | .function l name parameters body => .function (f l) name parameters (body.mapLines f)
  | .call l callee arguments => .call (f l) (callee.mapLines f) (mapLinesAll f arguments)
  | .leave l value => .leave (f l) (value.mapLines f)
  | .conditional l condition yes no =>
    .conditional (f l) (condition.mapLines f) (yes.mapLines f) (no.mapLines f)
  | .object l properties => .object (f l) (mapLinesProperties f properties)
  | .field l receiver x => .field (f l) (receiver.mapLines f) x
  | .setField l receiver x value => .setField (f l) (receiver.mapLines f) x (value.mapLines f)
  | .method l receiver x arguments =>
    .method (f l) (receiver.mapLines f) x (mapLinesAll f arguments)

def mapLinesAll (f : Nat → Nat) : List Expr → List Expr
  | [] => []
  | e :: es => e.mapLines f :: mapLinesAll f es

def mapLinesProperties (f : Nat → Nat) : List (String × Expr) → List (String × Expr)
  | [] => []
  | (x, e) :: properties => (x, e.mapLines f) :: mapLinesProperties f properties
end

theorem mapLinesAll_eq_map (f : Nat → Nat) (es : List Expr) :
    mapLinesAll f es = es.map (mapLines f) := by
  induction es with
  | nil => rfl
  | cons e es ih => rw [mapLinesAll, ih, List.map_cons]

theorem mapLinesProperties_eq_map (f : Nat → Nat) (ps : List (String × Expr)) :
    mapLinesProperties f ps = ps.map fun p => (p.1, p.2.mapLines f) := by
  induction ps with
  | nil => rfl
  | cons p ps ih => rw [mapLinesProperties, ih, List.map_cons]

mutual
/-- The expression with every line set to 0. -/
def unlined : Expr → Expr
  | .literal _ v => .literal 0 v
  | .block _ body => .block 0 (unlinedAll body)
  | .access _ x => .access 0 x
  | .assign _ mode x value => .assign 0 mode x value.unlined
  | .function _ name parameters body => .function 0 name parameters body.unlined
  | .call _ callee arguments => .call 0 callee.unlined (unlinedAll arguments)
  | .leave _ value => .leave 0 value.unlined
  | .conditional _ condition yes no => .conditional 0 condition.unlined yes.unlined no.unlined
  | .object _ properties => .object 0 (unlinedProperties properties)
  | .field _ receiver x => .field 0 receiver.unlined x
  | .setField _ receiver x value => .setField 0 receiver.unlined x value.unlined
  | .method _ receiver x arguments => .method 0 receiver.unlined x (unlinedAll arguments)

def unlinedAll : List Expr → List Expr
  | [] => []
  | e :: es => e.unlined :: unlinedAll es

def unlinedProperties : List (String × Expr) → List (String × Expr)
  | [] => []
  | (x, e) :: properties => (x, e.unlined) :: unlinedProperties properties
end

theorem unlinedAll_eq_map (es : List Expr) : unlinedAll es = es.map unlined := by
  induction es with
  | nil => rfl
  | cons e es ih => rw [unlinedAll, ih, List.map_cons]

theorem unlinedProperties_eq_map (ps : List (String × Expr)) :
    unlinedProperties ps = ps.map fun p => (p.1, p.2.unlined) := by
  induction ps with
  | nil => rfl
  | cons p ps ih => rw [unlinedProperties, ih, List.map_cons]

theorem unlined_eq_mapLines (e : Expr) : e.unlined = e.mapLines fun _ => 0 := by
  induction e using Expr.induction with
  | literal | access => rfl
  | block l body ih =>
    rw [unlined, mapLines, unlinedAll_eq_map, mapLinesAll_eq_map, List.map_congr_left ih]
  | assign l mode x value ih => rw [unlined, mapLines, ih]
  | function l name parameters body ih => rw [unlined, mapLines, ih]
  | call l callee arguments ih ihs =>
    rw [unlined, mapLines, ih, unlinedAll_eq_map, mapLinesAll_eq_map, List.map_congr_left ihs]
  | leave l value ih => rw [unlined, mapLines, ih]
  | conditional l condition yes no ihc ihy ihn => rw [unlined, mapLines, ihc, ihy, ihn]
  | object l properties ih =>
    rw [unlined, mapLines, unlinedProperties_eq_map, mapLinesProperties_eq_map]
    exact congrArg (Expr.object 0) (List.map_congr_left fun p hp => by rw [ih p hp])
  | field l receiver x ih => rw [unlined, mapLines, ih]
  | setField l receiver x value ihr ihv => rw [unlined, mapLines, ihr, ihv]
  | method l receiver x arguments ih ihs =>
    rw [unlined, mapLines, ih, unlinedAll_eq_map, mapLinesAll_eq_map, List.map_congr_left ihs]

section
variable (f : Nat → Nat)

theorem tokensAll_mapLinesAll {es : List Expr} (h : ∀ e ∈ es, (e.mapLines f).tokens = e.tokens) :
    tokensAll (mapLinesAll f es) = tokensAll es := by
  induction es with
  | nil => rfl
  | cons e es ih =>
    have tail := ih fun e he => h e (List.mem_cons_of_mem _ he)
    rw [mapLinesAll, tokensAll, tokensAll, h e List.mem_cons_self, tail]

theorem tokensProperties_mapLinesProperties {ps : List (String × Expr)}
    (h : ∀ p ∈ ps, (p.2.mapLines f).tokens = p.2.tokens) :
    tokensProperties (mapLinesProperties f ps) = tokensProperties ps := by
  induction ps with
  | nil => rfl
  | cons p ps ih =>
    have tail := ih fun p hp => h p (List.mem_cons_of_mem _ hp)
    rw [mapLinesProperties, tokensProperties, tokensProperties, h p List.mem_cons_self, tail]

/-- What an expression is written as does not depend on lines. -/
theorem tokens_mapLines (e : Expr) : (e.mapLines f).tokens = e.tokens := by
  induction e using Expr.induction with
  | literal | access => rfl
  | block l body ih => rw [mapLines, tokens, tokens, tokensAll_mapLinesAll f ih]
  | assign l mode x value ih => rw [mapLines, tokens, tokens, ih]
  | function l name parameters body ih =>
    cases body with
    | block l' body =>
      have inner : tokensAll (mapLinesAll f body) = tokensAll body := by
        simpa [mapLines, tokens, parens] using ih
      simp only [mapLines, tokens, inner]
    | literal | access | assign | function | call | leave | conditional | object | field | setField
    | method =>
      rw [mapLines, tokens_function (by simp [mapLines]), tokens_function (by simp), ih]
  | call l callee arguments ih ihs =>
    rw [mapLines, tokens, tokens, ih, tokensAll_mapLinesAll f ihs]
  | leave l value ih => rw [mapLines, tokens, tokens, ih]
  | conditional l condition yes no ihc ihy ihn => rw [mapLines, tokens, tokens, ihc, ihy, ihn]
  | object l properties ih =>
    rw [mapLines, tokens, tokens, tokensProperties_mapLinesProperties f ih]
  | field l receiver x ih => rw [mapLines, tokens, tokens, ih]
  | setField l receiver x value ihr ihv => rw [mapLines, tokens, tokens, ihr, ihv]
  | method l receiver x arguments ih ihs =>
    rw [mapLines, tokens, tokens, ih, tokensAll_mapLinesAll f ihs]

end

theorem tokens_unlined (e : Expr) : e.unlined.tokens = e.tokens := by
  rw [unlined_eq_mapLines, tokens_mapLines]

end Expr

/-- The script with every line changed. -/
def Script.mapLines (f : Nat → Nat) (s : Script) : Script := ⟨Expr.mapLinesAll f s.forms⟩

/-- The script with every line set to 0. -/
def Script.unlined (s : Script) : Script := ⟨Expr.unlinedAll s.forms⟩

/-- Scripts that are the same but for lines are written alike. -/
theorem Script.text_eq_of_unlined_eq {s t : Script} (h : s.unlined = t.unlined) :
    s.text = t.text := by
  have tokens : ∀ es : List Expr, es.map Expr.tokens = (Expr.unlinedAll es).map Expr.tokens := by
    intro es
    rw [Expr.unlinedAll_eq_map, List.map_map]
    exact List.map_congr_left fun e _ => e.tokens_unlined.symm
  have same : s.forms.map Expr.tokens = t.forms.map Expr.tokens := by
    rw [tokens s.forms, tokens t.forms]
    exact congrArg (fun u : Script => u.forms.map Expr.tokens) h
  have text : ∀ es : List Expr,
      es.map Expr.text = (es.map Expr.tokens).map fun ks => String.ofList (layout ks) := by
    intro es
    rw [List.map_map]
    rfl
  rw [Script.text, Script.text, text, text, same]

end Lisplet
