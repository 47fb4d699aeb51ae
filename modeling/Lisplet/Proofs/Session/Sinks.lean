import Lisplet.Command.Outcome
import Lisplet.Proofs.Object.Growth
import Lisplet.Proofs.Session.Trail
/-!
Evaluation does not see where its texts go. A sink is given texts and never asked for anything, so
whatever the sink, an evaluation ends in the same way, leaves the same heap and prints the same texts
(`sink_unseen`). A transcript lists the texts, and any other sink is told from it: it is what it was
before, with these texts written to it in order (`Likeness.Actions.relayed`).

The forms of a script can therefore be evaluated one by one, each with a new transcript
(`Session.log`), and what a buffer holds in the end is all that they have printed.
-/
namespace Lisplet

variable {ν σ τ α : Type}

namespace Likeness

variable [Sink σ] [Sink τ] {sink : σ → τ → Prop}
  {writeln : ∀ {a b}, sink a b → ∀ text, sink (Sink.writeln a text) (Sink.writeln b text)}

/-! Where only the sinks may differ, what is alike is the same. -/

theorem eq_of_results {r r' : Except Ending α} (h : (ofSinks sink writeln).Results Eq r r') :
    r = r' := by
  rcases h with rfl | (_ | ⟨fault, lines⟩ | _ | _)
  · rfl
  · rfl
  · cases lines
    rfl
  · rfl
  · rfl

theorem kinds_iff_eq {k k' : Kind ν} : (ofSinks sink writeln).Kinds k k' ↔ k = k' := by
  constructor
  · intro kinds
    cases kinds with
    | environment | plain | native => rfl
    | @closure name c c' closures =>
      rcases c with ⟨line, parameters, body, scope⟩
      rcases c' with ⟨line', parameters', body', scope'⟩
      obtain ⟨lines, same, bodies, scopes⟩ := closures
      cases lines
      cases same
      cases bodies
      cases scopes
      rfl
  · rintro rfl
    rcases k with _ | _ | ⟨name, native | c⟩
    · exact .environment
    · exact .plain
    · exact .native name native
    · exact .closure name ⟨rfl, rfl, rfl, rfl⟩

theorem objects_iff_eq {o o' : Object ν} : (ofSinks sink writeln).Objects o o' ↔ o = o' := by
  constructor
  · intro objects
    rcases o with ⟨kind, slots, parent⟩
    rcases o' with ⟨kind', slots', parent'⟩
    obtain ⟨kinds, same, parents⟩ := objects
    cases kinds_iff_eq.mp kinds
    cases same
    cases parents
    rfl
  · rintro rfl
    exact ⟨kinds_iff_eq.mpr rfl, rfl, rfl⟩

theorem heaps_iff_eq {h h' : Heap ν} : (ofSinks sink writeln).Heaps h h' ↔ h = h' := by
  constructor
  · intro heaps
    refine Heap.ext_get? fun r => ?_
    rcases heaps.get? r with ⟨ho, ho'⟩ | ⟨o, o', ho, ho', alike⟩
    · rw [ho, ho']
    · rw [ho, ho', objects_iff_eq.mp alike]
  · rintro rfl
    refine ⟨rfl, fun r => ?_⟩
    cases h.get? r with
    | none => exact .none
    | some o => exact .some (objects_iff_eq.mpr rfl)

end Likeness

/-! Sinks that are told from a transcript. -/

/-- The world with another sink, which was `a` before it was given the texts of the transcript. -/
def World.relay [Sink σ] (w : World ν Transcript) (a : σ) : World ν σ :=
  ⟨w.heap, w.sink.texts.toList.foldl Sink.writeln a⟩

/-- The sink `b` is what became of `a` when it was given the texts of the transcript. -/
def Transcript.Relayed [Sink σ] (a : σ) (t : Transcript) (b : σ) : Prop :=
  b = t.texts.toList.foldl Sink.writeln a

theorem Transcript.Relayed.writeln [Sink σ] {a b : σ} {t : Transcript} (h : Relayed a t b)
    (text : String) : Relayed a (Sink.writeln t text) (Sink.writeln b text) := by
  have more : (Sink.writeln t text).texts.toList = t.texts.toList ++ [text] := Array.toList_push
  rw [Relayed, more, List.foldl_append, ← h]
  rfl

namespace Likeness

variable [Sink σ]

/-- The likeness of what prints to a transcript and what prints to a sink that was `a`. -/
def relaying (a : σ) : Likeness Transcript σ := .ofSinks (Transcript.Relayed a) fun h => h.writeln

theorem Worlds.eq_relay {a : σ} {w : World ν Transcript} {w' : World ν σ}
    (h : (relaying a).Worlds w w') : w' = w.relay a := by
  have heaps : w.heap = w'.heap := heaps_iff_eq.mp h.heap
  have sinks : w'.sink = w.sink.texts.toList.foldl Sink.writeln a := h.sink
  rw [World.relay, heaps, ← sinks]

/-- An action that cannot tell the two apart does the same with any sink, and writes to it what it
would write to a transcript. -/
theorem Actions.relayed {a : σ} {m : Action ν Transcript α} {m' : Action ν σ α}
    (alike : (relaying a).Actions Eq m m') (h : Heap ν) :
    m' ⟨h, a⟩ = ((m ⟨h, .empty⟩).1, (m ⟨h, .empty⟩).2.relay a) := by
  have start : (relaying a).Worlds (⟨h, .empty⟩ : World ν Transcript) ⟨h, a⟩ :=
    ⟨heaps_iff_eq.mpr rfl, rfl⟩
  obtain ⟨results, worlds⟩ := alike _ _ start
  exact Prod.ext (eq_of_results results).symm worlds.eq_relay

omit [Sink σ] in
/-- An action that cannot tell any sink from a transcript writes the same texts to all of them. -/
theorem exists_texts {m : (σ : Type) → [Sink σ] → Action ν σ α}
    (alike : ∀ (σ : Type) [Sink σ] (a : σ), (relaying a).Actions Eq (m Transcript) (m σ))
    (h : Heap ν) : ∃ result h', ∃ texts : List String, ∀ (σ : Type) [Sink σ] (a : σ),
      m σ ⟨h, a⟩ = (result, ⟨h', texts.foldl Sink.writeln a⟩) :=
  ⟨(m Transcript ⟨h, .empty⟩).1, (m Transcript ⟨h, .empty⟩).2.heap,
    (m Transcript ⟨h, .empty⟩).2.sink.texts.toList, fun σ _ a => (alike σ a).relayed h⟩

end Likeness

theorem Eval.invoke_alike [Sink σ] [Sink τ] {sink : σ → τ → Prop}
    {writeln : ∀ {a b}, sink a b → ∀ text, sink (Sink.writeln a text) (Sink.writeln b text)}
    (depth : Nat) (inv : Invocation) :
    (Likeness.ofSinks sink writeln).Actions Eq (invoke depth inv : Action Builtin σ Value)
      (invoke depth inv) := by
  refine (expectFunction_alike _ rfl).bind_eq fun _ => ?_
  exact apply_alike (fun scope _ _ code => evaluate_alike depth scope code) _ _ _ rfl

namespace Session

/-- The session with an empty transcript for its sink. -/
def recording (s : Session σ) : Session Transcript := ⟨s.global, s.world.heap, .empty⟩

/-- What each form gives and the texts that it prints, until one gives no value. -/
def log (depth : Nat) (s : Session Transcript) :
    List Expr → List (Except Ending Value × List String)
  | [] => []
  | e :: es =>
    match s.recording.evaluate depth e with
    | (.ok v, s') => (.ok v, s'.world.sink.texts.toList) :: log depth s' es
    | (.error ending, s') => [(.error ending, s'.world.sink.texts.toList)]

theorem log_recording (depth : Nat) (s : Session Transcript) (es : List Expr) :
    log depth s.recording es = log depth s es := by
  cases es with
  | nil => rfl
  | cons e es => rfl

variable [Sink σ]

/-- The session with another sink, which was `a` before it was given the texts of the transcript. -/
def relay (s : Session Transcript) (a : σ) : Session σ := ⟨s.global, s.world.relay a⟩

@[simp] theorem recording_relay (s : Session Transcript) (a : σ) :
    (s.relay a).recording = s.recording := rfl

theorem eq_relay {a : σ} {s : Session Transcript} {s' : Session σ}
    (h : (Likeness.relaying a).Sessions s s') : s' = s.relay a := by
  rw [relay, h.global, ← h.worlds.eq_relay]

theorem evaluate_relayed (depth : Nat) (s : Session σ) (e : Expr) :
    s.evaluate depth e = ((s.recording.evaluate depth e).1,
      (s.recording.evaluate depth e).2.relay s.world.sink) := by
  have alike : (Likeness.relaying s.world.sink).Actions Eq _ _ :=
    Eval.evaluate_alike depth s.global (rfl : e = e)
  have same : Eval.evaluate depth s.global e s.world = _ := alike.relayed s.world.heap
  simp only [evaluate, same]
  rfl

/-- A run ends well if each of its forms gives a value. -/
theorem evaluateAll_eq_ok_iff (depth : Nat) (s : Session σ) (es : List Expr) :
    (s.evaluateAll depth es).1 = .ok () ↔
      ∃ vs : List Value, (log depth s.recording es).map (·.1) = vs.map .ok ∧ vs.length = es.length := by
  induction es generalizing s with
  | nil => exact ⟨fun _ => ⟨[], rfl, rfl⟩, fun _ => rfl⟩
  | cons e es ih =>
    have first := evaluate_relayed depth s e
    have fresh : s.recording.recording = s.recording := rfl
    rcases h : s.recording.evaluate depth e with ⟨ending | v, s'⟩
    · rw [h] at first
      simp only [evaluateAll, first, log, fresh, h]
      constructor
      · rintro ⟨⟩
      · rintro ⟨_ | ⟨v, vs⟩, same, -⟩ <;> simp at same
    · rw [h] at first
      simp only [evaluateAll, first, log, fresh, h, ih, recording_relay, log_recording]
      constructor
      · rintro ⟨vs, same, count⟩
        exact ⟨v :: vs, by simp [same], by simp [count]⟩
      · rintro ⟨_ | ⟨u, vs⟩, same, count⟩
        · cases count
        · exact ⟨vs, (List.cons.inj same).2, Nat.succ.inj count⟩

/-- A run writes to its sink what the forms print one after the other. -/
theorem sink_evaluateAll (depth : Nat) (s : Session σ) (es : List Expr) :
    (s.evaluateAll depth es).2.world.sink =
      ((log depth s.recording es).flatMap (·.2)).foldl Sink.writeln s.world.sink := by
  induction es generalizing s with
  | nil => rfl
  | cons e es ih =>
    have first := evaluate_relayed depth s e
    have fresh : s.recording.recording = s.recording := rfl
    rcases h : s.recording.evaluate depth e with ⟨ending | v, s'⟩
    · rw [h] at first
      simp only [evaluateAll, first, log, fresh, h, List.flatMap_cons, List.flatMap_nil,
        List.append_nil]
      rfl
    · rw [h] at first
      simp only [evaluateAll, first, log, fresh, h, List.flatMap_cons, List.foldl_append, ih,
        recording_relay, log_recording]
      rfl

end Session

/-- A script is run with any sink as it is with a transcript, and writes to it the texts that the
transcript lists. -/
theorem Script.run_relayed [Sink σ] (depth : Nat) (p : Script) (a : σ) :
    p.run depth a = ((p.run depth Transcript.empty).1, (p.run depth Transcript.empty).2.relay a) := by
  have start : (Likeness.relaying a).sink Transcript.empty a := rfl
  obtain ⟨results, sessions⟩ := Session.evaluateAll_alike (Session.start_alike start) depth
    (List.forall₂_same.mpr fun _ _ => rfl : List.Forall₂ Eq p.forms p.forms)
  exact Prod.ext (Likeness.eq_of_results results).symm (Session.eq_relay sessions)

/-- A buffer holds a line for each text that it was given. -/
theorem Buffer.data_foldl (b : Buffer) (texts : List String) :
    (texts.foldl Sink.writeln b).data = b.data ++ Outcome.lines texts := by
  induction texts generalizing b with
  | nil => simp [Outcome.lines]
  | cons text texts ih =>
    rw [List.foldl_cons, ih]
    simp [Sink.writeln, Outcome.lines, String.append_assoc]

/-- Evaluation is independent of the sink. Whatever is evaluated or invoked, in whatever heap, there
are a result, a heap and a list of texts so that every sink, whatever it has received before, sees
this result, this heap and these texts in order. So a script that is run with a buffer ends well
if each of its forms, evaluated one by one, gives a value; and in any case the buffer then holds a line
for each text that the forms have printed, form by form and in order. -/
theorem sink_unseen (depth : Nat) :
    (∀ (scope : Ref) (e : Expr) (h : Heap Builtin), ∃ result h', ∃ texts : List String,
      ∀ (σ : Type) [Sink σ] (a : σ),
        Eval.evaluate depth scope e ⟨h, a⟩ = (result, ⟨h', texts.foldl Sink.writeln a⟩)) ∧
    (∀ (inv : Invocation) (h : Heap Builtin), ∃ result h', ∃ texts : List String,
      ∀ (σ : Type) [Sink σ] (a : σ),
        Eval.invoke depth inv ⟨h, a⟩ = (result, ⟨h', texts.foldl Sink.writeln a⟩)) ∧
    ∀ p : Script,
      ((p.run depth Buffer.empty).1 = .ok () ↔
        ∃ vs : List Value, ((Session.start .empty).log depth p.forms).map (·.1) = vs.map .ok ∧
          vs.length = p.forms.length) ∧
      (p.run depth Buffer.empty).2.world.sink.data =
        Outcome.lines (((Session.start .empty).log depth p.forms).flatMap (·.2)) := by
  refine ⟨fun scope e h => ?_, fun inv h => ?_, fun p => ⟨?_, ?_⟩⟩
  · exact Likeness.exists_texts (m := fun σ _ => Eval.evaluate depth scope e)
      (fun σ _ a => Eval.evaluate_alike depth scope (rfl : e = e)) h
  · exact Likeness.exists_texts (m := fun σ _ => Eval.invoke depth inv)
      (fun σ _ a => Eval.invoke_alike depth inv) h
  · exact Session.evaluateAll_eq_ok_iff depth (.start Buffer.empty) p.forms
  · rw [Script.run, Session.sink_evaluateAll, Buffer.data_foldl]
    exact String.empty_append

end Lisplet
