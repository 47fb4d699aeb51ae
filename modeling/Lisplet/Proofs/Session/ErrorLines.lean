import Lisplet.Proofs.Reader.Acceptance
import Lisplet.Proofs.Session.Trail
import Lisplet.Proofs.Expr.Parts
import Lisplet.Proofs.Token.Position
/-!
Every run-time error points into the program. An error is reported on the line of the form that is
evaluated, of a call, or of a function that was defined earlier and is kept in the heap; so the lines
of all functions in the heap matter, and a likeness of sessions with themselves keeps track of them
(`Likeness.onLines`). Lines of nodes come from tokens, and tokens stand on lines of the text.
-/
namespace Lisplet

variable {σ : Type}

/-- All expressions of the script, at any depth. -/
def Script.nodes (p : Script) : List Expr := p.forms.flatMap Expr.nodes

/-- All lines in the expression are of this sort. -/
def Expr.LinesIn (P : Nat → Prop) (e : Expr) : Prop := ∀ n ∈ e.nodes, P n.line

theorem Expr.linesIn_iff {P : Nat → Prop} {e : Expr} :
    e.LinesIn P ↔ P e.line ∧ ∀ p ∈ e.parts, p.LinesIn P := by
  unfold LinesIn
  rw [nodes_eq_cons, List.forall_mem_cons, List.forall_mem_flatMap]

/-! Nodes are on the lines of the tokens that spell them. -/

def Phrase.LinesIn (P : Nat → Prop) : Phrase → Prop
  | .expr e => e.LinesIn P
  | .exprs es => ∀ e ∈ es, e.LinesIn P
  | .properties ps => ∀ p ∈ ps, p.2.LinesIn P

/-- A form is on the line of its opening parenthesis. -/
theorem Expr.LinesIn.form {P : Nat → Prop} {e : Expr} {ts : List Token} {r : Nat}
    (lines : ∀ t ∈ enclose e.line ts r, P t.line)
    (parts : P e.line → (∀ t ∈ ts, P t.line) → ∀ p ∈ e.parts, p.LinesIn P) : e.LinesIn P := by
  have here : P e.line := lines ⟨.leftParen, e.line⟩ (by simp [enclose])
  exact linesIn_iff.mpr ⟨here, parts here fun t ht => lines t (by simp [enclose, ht])⟩

theorem Spells.linesIn {P : Nat → Prop} {phrase : Phrase} {ts : List Token} (h : Spells phrase ts)
    (lines : ∀ t ∈ ts, P t.line) : phrase.LinesIn P := by
  induction h with
  | integer | string | undefined | access =>
    exact Expr.linesIn_iff.mpr ⟨lines _ List.mem_cons_self, by simp [Expr.parts]⟩
  | block l k r _ ih =>
    refine .form lines fun _ inner => ?_
    exact ih fun t ht => inner t (by simp [ht])
  | assign l k n r mode x _ ih =>
    refine .form lines fun _ inner => List.forall_mem_singleton.mpr ?_
    exact ih fun t ht => inner t (by simp [ht])
  | function l k m n r _ _ _ ih =>
    refine .form lines fun here inner => List.forall_mem_singleton.mpr ?_
    exact Expr.linesIn_iff.mpr ⟨here, ih fun t ht => inner t (by simp [ht])⟩
  | call l r _ _ _ ihf ihs =>
    refine .form lines fun _ inner => List.forall_mem_cons.mpr ⟨?_, ?_⟩
    · exact ihf fun t ht => inner t (by simp [ht])
    · exact ihs fun t ht => inner t (by simp [ht])
  | leaveEmpty l k r =>
    refine .form lines fun here _ => List.forall_mem_singleton.mpr ?_
    exact Expr.linesIn_iff.mpr ⟨here, by simp [Expr.parts]⟩
  | leave l k r _ ih =>
    refine .form lines fun _ inner => List.forall_mem_singleton.mpr ?_
    exact ih fun t ht => inner t (by simp [ht])
  | conditionalShort l k r _ _ ihc iht =>
    refine .form lines fun here inner => ?_
    have condition := ihc fun t ht => inner t (by simp [ht])
    have yes := iht fun t ht => inner t (by simp [ht])
    have no : (Expr.block l []).LinesIn P := Expr.linesIn_iff.mpr ⟨here, by simp [Expr.parts]⟩
    simpa [Expr.parts] using ⟨condition, yes, no⟩
  | conditional l k r _ _ _ ihc iht ihe =>
    refine .form lines fun here inner => ?_
    have condition := ihc fun t ht => inner t (by simp [ht])
    have yes := iht fun t ht => inner t (by simp [ht])
    have no := ihe fun t ht => inner t (by simp [ht])
    simpa [Expr.parts] using ⟨condition, yes, no⟩
  | object l k r _ _ ih =>
    refine .form lines fun _ inner => List.forall_mem_map.mpr ?_
    exact ih fun t ht => inner t (by simp [ht])
  | field l k n r x _ ih =>
    refine .form lines fun _ inner => List.forall_mem_singleton.mpr ?_
    exact ih fun t ht => inner t (by simp [ht])
  | setField l k n r x _ _ ihr ihv =>
    refine .form lines fun _ inner => ?_
    have receiver := ihr fun t ht => inner t (by simp [ht])
    have value := ihv fun t ht => inner t (by simp [ht])
    simpa [Expr.parts] using ⟨receiver, value⟩
  | method l k n r x _ _ ihr ihs =>
    refine .form lines fun _ inner => List.forall_mem_cons.mpr ⟨?_, ?_⟩
    · exact ihr fun t ht => inner t (by simp [ht])
    · exact ihs fun t ht => inner t (by simp [ht])
  | exprsNil | propertiesNil => simp [Phrase.LinesIn]
  | exprsCons _ _ ih ihs =>
    refine List.forall_mem_cons.mpr ⟨?_, ?_⟩
    · exact ih fun t ht => lines t (by simp [ht])
    · exact ihs fun t ht => lines t (by simp [ht])
  | propertiesCons l n r x _ _ ih ihs =>
    refine List.forall_mem_cons.mpr ⟨?_, ?_⟩
    · exact ih fun t ht => lines t (by simp [enclose, ht])
    · exact ihs fun t ht => lines t (by simp [ht])

/-- The lines of a script that was read are lines of the text. -/
theorem Script.linesIn_split {source : String} {p : Script} (read : Script.ofText source = .ok p) :
    ∀ e ∈ p.forms, e.LinesIn fun line => 1 ≤ line ∧ line ≤ (Line.split source).length := by
  obtain ⟨ts, last, readings, spells⟩ := Script.ofText_eq_ok_iff.mp read
  refine spells.linesIn fun t ht => ?_
  have mem : .ok t ∈ (Scanner.ofText source).readings := by
    rw [readings]
    exact List.mem_map_of_mem (List.mem_append_left _ ht)
  have more : Reading.isEnd (.ok t) = false := by simpa using spells.ne_eof t ht
  exact Scanner.line_mem_split mem more

/-! Evaluation. -/

theorem Expr.matches_of_linesIn {P : Nat → Prop} {e e' : Expr} (h : e = e' ∧ e.LinesIn P) :
    e.Matches (fun l l' => l = l' ∧ P l) (fun e e' => e = e' ∧ e.LinesIn P) e' := by
  obtain ⟨rfl, lines⟩ := h
  obtain ⟨here, inner⟩ := linesIn_iff.mp lines
  have own : e.line = e.line ∧ P e.line := ⟨rfl, here⟩
  have parts : ∀ p ∈ e.parts, p = p ∧ p.LinesIn P := fun p hp => ⟨rfl, inner p hp⟩
  cases e with
  | literal l v => exact .literal v own
  | block l es => exact .block own (List.forall₂_same.mpr parts)
  | access l x => exact .access x own
  | assign l mode x value => exact .assign mode x own (parts value (by simp [Expr.parts]))
  | function l name parameters body =>
    exact .function name parameters own (parts body (by simp [Expr.parts]))
  | call l callee arguments =>
    exact .call own (parts callee (by simp [Expr.parts]))
      (List.forall₂_same.mpr fun e he => parts e (by simp [Expr.parts, he]))
  | leave l value => exact .leave own (parts value (by simp [Expr.parts]))
  | conditional l condition yes no =>
    exact .conditional own (parts condition (by simp [Expr.parts]))
      (parts yes (by simp [Expr.parts])) (parts no (by simp [Expr.parts]))
  | object l properties =>
    exact .object own (List.forall₂_same.mpr fun p hp => ⟨rfl, parts p.2 (List.mem_map_of_mem hp)⟩)
  | field l receiver x => exact .field x own (parts receiver (by simp [Expr.parts]))
  | setField l receiver x value =>
    exact .setField x own (parts receiver (by simp [Expr.parts]))
      (parts value (by simp [Expr.parts]))
  | method l receiver x arguments =>
    exact .method x own (parts receiver (by simp [Expr.parts]))
      (List.forall₂_same.mpr fun e he => parts e (by simp [Expr.parts, he]))

/-- The likeness with itself of what has only lines of one sort. -/
def Likeness.onLines (σ : Type) [Sink σ] (P : Nat → Prop) : Likeness σ σ :=
  .ofCode σ (fun l l' => l = l' ∧ P l) (fun e e' => e = e' ∧ e.LinesIn P) Expr.matches_of_linesIn

namespace Session

variable [Sink σ]

/-- The session has evaluated these expressions, in this order and however each of them ended. -/
inductive Evaluated : List Expr → Session σ → Prop where
  | start (sink : σ) : Evaluated [] (start sink)
  | next {es : List Expr} {s : Session σ} (before : Evaluated es s) (depth : Nat) (e : Expr) :
      Evaluated (es ++ [e]) (s.evaluate depth e).2

/-- The functions in the heap have the lines of what was evaluated. -/
theorem Evaluated.onLines {P : Nat → Prop} {es : List Expr} {s : Session σ} (done : Evaluated es s)
    (lines : ∀ e ∈ es, e.LinesIn P) : (Likeness.onLines σ P).Sessions s s := by
  induction done with
  | start sink => exact start_alike rfl
  | next before depth e ih =>
    obtain ⟨earlier, last⟩ := List.forall_mem_append.mp lines
    exact (evaluate_alike (ih earlier) depth ⟨rfl, List.forall_mem_singleton.mp last⟩).2

/-- An error is on one of the lines of what was evaluated so far. -/
theorem Evaluated.line {P : Nat → Prop} {es : List Expr} {s : Session σ} (done : Evaluated es s)
    {e : Expr} (lines : ∀ f ∈ es ++ [e], f.LinesIn P) {depth : Nat} {err : EvalError}
    (failed : (s.evaluate depth e).1 = .error (.failed err)) : P err.line := by
  obtain ⟨earlier, last⟩ := List.forall_mem_append.mp lines
  have code : (Likeness.onLines σ P).code e e := ⟨rfl, List.forall_mem_singleton.mp last⟩
  have results := (evaluate_alike (done.onLines earlier) depth code).1
  rw [failed] at results
  cases results with
  | error endings =>
    cases endings with
    | failed fault lines => exact lines.2

/-- A run that stops does so at one of its forms, after those before it. -/
theorem Evaluated.evaluateAll {es forms : List Expr} {s : Session σ} (done : Evaluated es s)
    {depth : Nat} {ending : Ending} (stopped : (s.evaluateAll depth forms).1 = .error ending) :
    ∃ before e after, ∃ s' : Session σ, forms = before ++ e :: after ∧ Evaluated (es ++ before) s' ∧
      (s'.evaluate depth e).1 = .error ending := by
  induction forms generalizing es s with
  | nil => cases stopped
  | cons e forms ih =>
    rcases h : s.evaluate depth e with ⟨other | v, s'⟩
    · simp only [Session.evaluateAll, h] at stopped
      cases stopped
      exact ⟨[], e, forms, s, rfl, by simpa using done, by rw [h]⟩
    · simp only [Session.evaluateAll, h] at stopped
      have next : Evaluated (es ++ [e]) s' := by simpa [h] using done.next depth e
      obtain ⟨before, f, after, s'', rfl, done', failed⟩ := ih next stopped
      exact ⟨e :: before, f, after, s'', rfl, by simpa using done', failed⟩

end Session

theorem Script.linesIn_nodes (p : Script) :
    ∀ e ∈ p.forms, e.LinesIn fun line => ∃ n ∈ p.nodes, n.line = line :=
  fun e he n hn => ⟨n, List.mem_flatMap.mpr ⟨e, he, hn⟩, rfl⟩

/-- The line is that of a node of the script, and a line of its source. -/
structure PointsInto (source : String) (p : Script) (line : Nat) : Prop where
  node : ∃ n ∈ p.nodes, n.line = line
  positive : 1 ≤ line
  bounded : line ≤ (Line.split source).length
  /-- The line itself is picked to be shown, and not another one near it. -/
  shown : Line.nearest (Line.split source) line = line
  /-- A line number of 32 bits is enough if the source has no more than that many lines. -/
  fits : source.toList.count '\n' < 4294967295 → line ≤ 4294967295

theorem PointsInto.of_linesIn {source : String} {p : Script} {line : Nat}
    (node : ∃ n ∈ p.nodes, n.line = line)
    (bounds : 1 ≤ line ∧ line ≤ (Line.split source).length) : PointsInto source p line where
  node := node
  positive := bounds.1
  bounded := bounds.2
  shown := by
    unfold Line.nearest
    omega
  fits few := by
    have lines := Line.length_split_le source
    omega

/-- When the forms before it were evaluated, an error of a form points into the source. -/
theorem Session.Evaluated.pointsInto [Sink σ] {source : String} {p : Script}
    (read : Script.ofText source = .ok p) {es : List Expr} {s : Session σ} (done : Evaluated es s)
    {e : Expr} {rest : List Expr} (forms : p.forms = es ++ e :: rest) {depth : Nat}
    {err : EvalError} (failed : (s.evaluate depth e).1 = .error (.failed err)) :
    PointsInto source p err.line := by
  have mem : ∀ f ∈ es ++ [e], f ∈ p.forms := by
    intro f hf
    rw [forms, List.append_cons]
    exact List.mem_append_left rest hf
  have node := done.line (fun f hf => p.linesIn_nodes f (mem f hf)) failed
  have bounds := done.line (fun f hf => Script.linesIn_split read f (mem f hf)) failed
  exact .of_linesIn node bounds

/-- An error points into the source that is run: when its forms are evaluated one after the other,
also beyond forms that failed, and when it is run up to the first that does. In a session that
evaluates forms of several scripts, the line is that of a node of one of them. -/
theorem error_points_into_source [Sink σ] (sink : σ) :
    (∀ source p, Script.ofText source = .ok p →
      (∀ (es : List Expr) (s : Session σ), Session.Evaluated es s →
        ∀ (e : Expr) (rest : List Expr), p.forms = es ++ e :: rest →
        ∀ depth err, (s.evaluate depth e).1 = .error (.failed err) → PointsInto source p err.line) ∧
      ∀ depth err, (p.run depth sink).1 = .error (.failed err) → PointsInto source p err.line) ∧
    ∀ (ps : List Script) (es : List Expr) (s : Session σ), Session.Evaluated es s →
      ∀ e : Expr, (∀ f ∈ es ++ [e], ∃ p ∈ ps, f ∈ p.forms) →
      ∀ depth err, (s.evaluate depth e).1 = .error (.failed err) →
        ∃ p ∈ ps, ∃ n ∈ p.nodes, n.line = err.line := by
  refine ⟨fun source p read => ⟨?_, ?_⟩, ?_⟩
  · intro es s done e rest forms depth err failed
    exact done.pointsInto read forms failed
  · intro depth err failed
    obtain ⟨before, e, after, s, forms, done, failed⟩ :=
      (Session.Evaluated.start sink).evaluateAll failed
    exact done.pointsInto read forms failed
  · intro ps es s done e forms depth err failed
    refine done.line (P := fun line => ∃ p ∈ ps, ∃ n ∈ p.nodes, n.line = line) ?_ failed
    intro f hf n hn
    obtain ⟨p, hp, mem⟩ := forms f hf
    exact ⟨p, hp, p.linesIn_nodes f mem n hn⟩

/-- The line of an error in a function that is called from another line. -/
theorem error_points_into_callee : ∃ p err,
    Script.ofText "(fun f (x)\n  (+ x y))\n(f 1)" = .ok p ∧
      (p.run 9 Transcript.empty).1 = .error (.failed err) ∧ err.line = 2 ∧
      PointsInto "(fun f (x)\n  (+ x y))\n(f 1)" p err.line := by
  have read : Script.ofText "(fun f (x)\n  (+ x y))\n(f 1)" = .ok ⟨[
      .function 1 (some "f") ["x"] (.block 1 [
        .call 2 (.access 2 "+") [.access 2 "x", .access 2 "y"]]),
      .call 3 (.access 3 "f") [.literal 3 (.integer 1)]]⟩ := by with_unfolding_all rfl
  have points := ((error_points_into_source Transcript.empty).1 _ _ read).2 9
  exact ⟨_, _, read, rfl, rfl, points _ rfl⟩

end Lisplet
