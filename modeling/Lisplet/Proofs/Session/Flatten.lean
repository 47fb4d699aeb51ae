import Lisplet.Proofs.Eval.Flatten
import Lisplet.Proofs.Session.Steps
import Lisplet.Proofs.Session.Unlined
/-!
Blocks have no scopes. A block that stands in a block could as well be left out and its instructions
stand there in its place: a script and the flattened script do the same form by form, and come to their
ends together or not at all (`runs_like_flattened`). The sessions that they leave have the same objects
with the same properties and the same parents; only the functions in them may have other bodies, and
these become the same when they are flattened.
-/
namespace Lisplet

variable {σ α : Type}

/-- The session with the bodies of its functions flattened. -/
def Session.flatten (s : Session σ) : Session σ := { s with world := s.world.flatten }

/-- What was given as it is, and the session that was left with the bodies of its functions
flattened. -/
def outcomeFlatten (x : α × Session σ) : α × Session σ := (x.1, x.2.flatten)

namespace Session

variable [Sink σ] {s s' : Session σ}

/-- A form and one that becomes the same when it is flattened are evaluated to the same end. -/
theorem Evaluates.follow {e e' : Expr} {r : Except Ending Value} {s₁ : Session σ}
    (h : s.Evaluates e r s₁) (sessions : s.flatten = s'.flatten) (same : e.flatten = e'.flatten) :
    ∃ s₁', s'.Evaluates e' r s₁' ∧ s₁.flatten = s₁'.flatten := by
  obtain ⟨finished, depth, h⟩ := h
  obtain ⟨global, w⟩ := s
  obtain ⟨global', w'⟩ := s'
  obtain ⟨rfl, worlds⟩ := Session.mk.inj sessions
  obtain ⟨rfl, rfl⟩ := Prod.mk.inj h
  have line : e.line = e'.line := by rw [← e.line_flatten, same, e'.line_flatten]
  have inner : (Eval.evaluate depth global e w).1 ≠ .error .exhausted :=
    fun cut => finished (forbidReturn_eq_exhausted.mpr cut)
  obtain ⟨w₁, ⟨depth', settles⟩, later⟩ := Eval.evaluate_follows depth global same w w' worlds inner
  refine ⟨⟨global, w₁⟩, ⟨finished, depth', ?_⟩, congrArg (Session.mk global) later⟩
  simp only [evaluate, settles depth' (Nat.le_refl _), line]

/-- Step by step the forms give the same. -/
theorem Steps.follow {es es' : List Expr} {steps : List (Except Ending Value × Session σ)}
    (h : Steps s es steps) (sessions : s.flatten = s'.flatten)
    (same : List.Forall₂ (fun e e' => e.flatten = e'.flatten) es es') :
    ∃ steps', Steps s' es' steps' ∧ steps'.map outcomeFlatten = steps.map outcomeFlatten := by
  induction h generalizing s' es' with
  | nil => exact ⟨[], .nil s' es', rfl⟩
  | stop h =>
    cases same with
    | cons head rest =>
      obtain ⟨s₁', h', later⟩ := h.follow sessions head
      exact ⟨_, .stop h' _, by simp [outcomeFlatten, later]⟩
  | cons h _ ih =>
    cases same with
    | cons head rest =>
      obtain ⟨s₁', h', later⟩ := h.follow sessions head
      obtain ⟨steps', behind, equal⟩ := ih later rest
      exact ⟨_, .cons h' behind, by simp [outcomeFlatten, later, equal]⟩

/-- If the one run comes to an end, so does the other. -/
theorem exists_evaluateAll_follow {depth : Nat} {es es' : List Expr} {r : Except Ending Unit}
    {s₁ : Session σ} (h : s.evaluateAll depth es = (r, s₁)) (finished : r ≠ .error .exhausted)
    (sessions : s.flatten = s'.flatten)
    (same : List.Forall₂ (fun e e' => e.flatten = e'.flatten) es es') :
    ∃ depth' s₁', s'.evaluateAll depth' es' = (r, s₁') ∧ s₁'.flatten = s₁.flatten := by
  induction same generalizing s s' with
  | nil =>
    cases h
    exact ⟨0, s', rfl, sessions.symm⟩
  | @cons e e' es es' head _ ih =>
    rcases he : s.evaluate depth e with ⟨ending | v, s₂⟩
    · simp only [evaluateAll, he] at h
      cases h
      have ends : s.Evaluates e (.error ending) s₁ := ⟨by simpa using finished, depth, he⟩
      obtain ⟨s₂', ⟨-, depth', he'⟩, later⟩ := ends.follow sessions head
      exact ⟨depth', s₂', by simp only [evaluateAll, he'], later.symm⟩
    · simp only [evaluateAll, he] at h
      have ends : s.Evaluates e (.ok v) s₂ := ⟨by simp, depth, he⟩
      obtain ⟨s₂', ends', later⟩ := ends.follow sessions head
      obtain ⟨depth', first⟩ := ends'.exists_depth
      obtain ⟨depth'', s₁', rest, equal⟩ := ih h later
      -- The rest does the same at the depth that is enough for the first form too.
      refine ⟨max depth' depth'', s₁', ?_, equal⟩
      simp only [evaluateAll, first _ (Nat.le_max_left depth' depth'')]
      rw [evaluateAll_of_le (Nat.le_max_right depth' depth'') _ _ (by rwa [rest]), rest]

end Session

namespace Script

variable [Sink σ]

/-- The script comes to an end in this way, its session flattened. -/
def EndsFlattened (p : Script) (sink : σ) (r : Except Ending Unit) (s : Session σ) : Prop :=
  r ≠ .error .exhausted ∧ ∃ depth s₁, p.run depth sink = (r, s₁) ∧ s₁.flatten = s

/-- The script gives these steps one by one, the sessions flattened. -/
def StepsFlattened (p : Script) (sink : σ) (steps : List (Except Ending Value × Session σ)) : Prop :=
  ∃ steps', Session.Steps (.start sink) p.forms steps' ∧ steps'.map outcomeFlatten = steps

theorem forall₂_forms_flatten (p : Script) :
    List.Forall₂ (fun e e' => e.flatten = e'.flatten) p.forms p.flatten.forms := by
  rw [flatten, List.forall₂_map_right_iff]
  exact List.forall₂_same.mpr fun e _ => e.flatten_flatten.symm

theorem EndsFlattened.follow {p q : Script} {sink : σ} {r : Except Ending Unit} {s : Session σ}
    (h : p.EndsFlattened sink r s)
    (same : List.Forall₂ (fun e e' => e.flatten = e'.flatten) p.forms q.forms) :
    q.EndsFlattened sink r s := by
  obtain ⟨finished, depth, s₁, ran, rfl⟩ := h
  exact ⟨finished, Session.exists_evaluateAll_follow ran finished rfl same⟩

theorem StepsFlattened.follow {p q : Script} {sink : σ}
    {steps : List (Except Ending Value × Session σ)} (h : p.StepsFlattened sink steps)
    (same : List.Forall₂ (fun e e' => e.flatten = e'.flatten) p.forms q.forms) :
    q.StepsFlattened sink steps := by
  obtain ⟨steps', ran, rfl⟩ := h
  exact ran.follow rfl same

theorem finishes_iff_endsFlattened {p : Script} {sink : σ} :
    p.Finishes sink ↔ ∃ r s, p.EndsFlattened sink r s := by
  constructor
  · rintro ⟨depth, finished⟩
    exact ⟨_, _, finished, depth, _, rfl, rfl⟩
  · rintro ⟨r, s, finished, depth, s₁, ran, -⟩
    exact ⟨depth, by rwa [ran]⟩

end Script

/-- Blocks have no scopes. No block of a flattened script stands in another. A script and the
flattened script come to their ends together; form by form they give the same values and print the
same, and they stop at the same form, with the same error on the same line, or at none; and in the end
the sessions are the same but for blocks in blocks in the bodies of functions. -/
theorem runs_like_flattened {σ : Type} [Sink σ] (p : Script) (sink : σ) :
    (∀ e ∈ p.flatten.forms, e.Flat) ∧
    (p.Finishes sink ↔ p.flatten.Finishes sink) ∧
    (∀ steps, p.StepsFlattened sink steps ↔ p.flatten.StepsFlattened sink steps) ∧
    ∀ r s, p.EndsFlattened sink r s ↔ p.flatten.EndsFlattened sink r s := by
  have forth := p.forall₂_forms_flatten
  have back : List.Forall₂ (fun e e' => e.flatten = e'.flatten) p.flatten.forms p.forms :=
    forth.flip.imp fun _ _ same => same.symm
  have ends : ∀ r s, p.EndsFlattened sink r s ↔ p.flatten.EndsFlattened sink r s :=
    fun r s => ⟨fun h => h.follow forth, fun h => h.follow back⟩
  refine ⟨?_, ?_, fun steps => ⟨fun h => h.follow forth, fun h => h.follow back⟩, ends⟩
  · intro e he
    obtain ⟨e, -, rfl⟩ := List.mem_map.mp he
    exact e.flat_flatten
  · simp only [Script.finishes_iff_endsFlattened, ends]

/-- A function that declares and prints in blocks in its body, and a form that returns from a block in a
block, where there is nothing to return from. The form is blamed on its own line in both scripts. -/
theorem runs_like_flattened_return : ∃ (p : Script) (s : Session Transcript),
    p.flatten = ⟨[
      .function 1 (some "f") ["x"] (.block 1 [.assign 3 .declare "y" (.access 3 "x"),
        .call 4 (.access 4 "print") [.access 4 "y"], .leave 5 (.access 5 "y")]),
      .call 6 (.access 6 "f") [.literal 6 (.string "a")],
      .block 7 [.leave 9 (.access 9 "y")]]⟩ ∧
    (∀ e ∈ p.flatten.forms, e.Flat) ∧
    p.EndsFlattened .empty (.error (.failed ⟨.returnOutsideFunction, 7⟩)) s ∧
    p.flatten.EndsFlattened .empty (.error (.failed ⟨.returnOutsideFunction, 7⟩)) s ∧
    s.world.sink.texts = #["a"] := by
  obtain ⟨p, hp⟩ : ∃ p : Script, p = ⟨[
      .function 1 (some "f") ["x"] (.block 1 [
        .block 2 [.block 3 [.assign 3 .declare "y" (.access 3 "x")],
          .call 4 (.access 4 "print") [.access 4 "y"]],
        .leave 5 (.access 5 "y")]),
      .call 6 (.access 6 "f") [.literal 6 (.string "a")],
      .block 7 [.block 8 [.leave 9 (.access 9 "y")]]]⟩ := ⟨_, rfl⟩
  have result : (p.run 9 Transcript.empty).1 = .error (.failed ⟨.returnOutsideFunction, 7⟩) := by
    subst hp
    decide +kernel
  have texts : (p.run 9 Transcript.empty).2.world.sink.texts = #["a"] := by
    subst hp
    decide +kernel
  have ends : p.EndsFlattened Transcript.empty (.error (.failed ⟨.returnOutsideFunction, 7⟩))
      (p.run 9 Transcript.empty).2.flatten := ⟨by simp, 9, _, Prod.ext result rfl, rfl⟩
  obtain ⟨flat, -, -, alike⟩ := runs_like_flattened p Transcript.empty
  exact ⟨p, _, by subst hp; rfl, flat, ends, (alike _ _).mp ends, texts⟩

end Lisplet
