import Lisplet.Eval.Depth
import Lisplet.Eval.Session
/-!
Runs without a depth. In a session, too, an evaluation that comes to its end does the same at every
greater depth, and so does a run. What a run does form by form can therefore be told without a depth
(`Steps`): a run that stops at an error is one whose last step is that error
(`evaluateAll_eq_error_iff`). A run that never ends still has the steps before the form that it does
not get over.
-/
namespace Lisplet
namespace Session

variable {σ : Type} [Sink σ]

theorem forbidReturn_eq_exhausted {line : Nat} {r : Except Ending Value} :
    forbidReturn line r = .error .exhausted ↔ r = .error .exhausted := by
  rcases r with (_ | _ | _ | _) | _ <;> simp [forbidReturn]

theorem evaluate_of_le {depth depth' : Nat} (hle : depth ≤ depth') (s : Session σ) (e : Expr)
    (finished : (s.evaluate depth e).1 ≠ .error .exhausted) :
    s.evaluate depth' e = s.evaluate depth e := by
  have inner : (Eval.evaluate depth s.global e s.world).1 ≠ .error .exhausted :=
    fun cut => finished (forbidReturn_eq_exhausted.mpr cut)
  simp only [evaluate, Eval.evaluate_of_le hle s.global e s.world inner]

theorem evaluateAll_of_le {depth depth' : Nat} (hle : depth ≤ depth') (s : Session σ)
    (es : List Expr) (finished : (s.evaluateAll depth es).1 ≠ .error .exhausted) :
    s.evaluateAll depth' es = s.evaluateAll depth es := by
  induction es generalizing s with
  | nil => rfl
  | cons e es ih =>
    have first : (s.evaluate depth e).1 ≠ .error .exhausted := by
      intro cut
      rcases h : s.evaluate depth e with ⟨r, s'⟩
      rw [h] at cut
      cases cut
      exact finished (by simp only [evaluateAll, h])
    have same := evaluate_of_le hle s e first
    rcases h : s.evaluate depth e with ⟨ending | v, s'⟩
    · simp only [evaluateAll, same, h]
    · simp only [evaluateAll, h] at finished
      simp only [evaluateAll, same, h]
      exact ih s' finished

/-- Evaluating the expression comes to an end: it gives `r` and leaves the session `s'`. -/
def Evaluates (s : Session σ) (e : Expr) (r : Except Ending Value) (s' : Session σ) : Prop :=
  r ≠ .error .exhausted ∧ ∃ depth, s.evaluate depth e = (r, s')

theorem Evaluates.exists_depth {s s' : Session σ} {e : Expr} {r : Except Ending Value}
    (h : s.Evaluates e r s') : ∃ depth, ∀ d, depth ≤ d → s.evaluate d e = (r, s') := by
  obtain ⟨finished, depth, h⟩ := h
  refine ⟨depth, fun d hd => ?_⟩
  rw [evaluate_of_le hd s e (by rw [h]; exact finished), h]

/-- The first steps of a run: what its first forms have given, each evaluated to its end, and the
sessions that they left. Behind a form that gives no value there are no more. -/
inductive Steps : Session σ → List Expr → List (Except Ending Value × Session σ) → Prop where
  | nil (s : Session σ) (es : List Expr) : Steps s es []
  | stop {s s' : Session σ} {e : Expr} {ending : Ending} (h : s.Evaluates e (.error ending) s')
      (es : List Expr) : Steps s (e :: es) [(.error ending, s')]
  | cons {s s' : Session σ} {e : Expr} {es : List Expr} {v : Value}
      {steps : List (Except Ending Value × Session σ)} (h : s.Evaluates e (.ok v) s')
      (later : Steps s' es steps) : Steps s (e :: es) ((.ok v, s') :: steps)

/-- A run that stops at an error has that error for its last step. -/
theorem exists_steps_of_error {depth : Nat} {s s' : Session σ} {es : List Expr} {ending : Ending}
    (h : s.evaluateAll depth es = (.error ending, s')) (finished : ending ≠ .exhausted) :
    ∃ steps, Steps s es (steps ++ [(.error ending, s')]) := by
  induction es generalizing s with
  | nil => cases h
  | cons e es ih =>
    rcases he : s.evaluate depth e with ⟨other | v, s₁⟩
    · simp only [evaluateAll, he] at h
      cases h
      exact ⟨[], .stop ⟨by simpa using finished, depth, he⟩ es⟩
    · simp only [evaluateAll, he] at h
      obtain ⟨steps, later⟩ := ih h
      exact ⟨(.ok v, s₁) :: steps, .cons ⟨by simp, depth, he⟩ later⟩

theorem Steps.exists_depth_of_error {s s' : Session σ} {es : List Expr}
    {steps : List (Except Ending Value × Session σ)} {ending : Ending} (h : Steps s es steps)
    (last : steps.getLast? = some (.error ending, s')) :
    ending ≠ .exhausted ∧ ∃ depth, ∀ d, depth ≤ d → s.evaluateAll d es = (.error ending, s') := by
  induction h with
  | nil => cases last
  | stop h es =>
    cases last
    obtain ⟨depth, same⟩ := h.exists_depth
    refine ⟨fun cut => h.1 (by rw [cut]), depth, fun d hd => ?_⟩
    simp only [evaluateAll, same d hd]
  | @cons s s₁ e es v steps h _ ih =>
    have behind : steps.getLast? = some (.error ending, s') := by
      cases steps with
      | nil => cases last
      | cons x steps => rwa [List.getLast?_cons_cons] at last
    obtain ⟨depth, same⟩ := h.exists_depth
    obtain ⟨finished, depth', rest⟩ := ih behind
    refine ⟨finished, max depth depth', fun d hd => ?_⟩
    simp only [evaluateAll, same d (by omega)]
    exact rest d (by omega)

/-- The script fails as a run of it does that comes to its end. -/
theorem evaluateAll_eq_error_iff {s s' : Session σ} {es : List Expr} {ending : Ending} :
    (ending ≠ .exhausted ∧ ∃ depth, s.evaluateAll depth es = (.error ending, s')) ↔
      ∃ steps, Steps s es (steps ++ [(.error ending, s')]) := by
  constructor
  · rintro ⟨finished, depth, h⟩
    exact exists_steps_of_error h finished
  · rintro ⟨steps, h⟩
    obtain ⟨finished, depth, same⟩ := h.exists_depth_of_error List.getLast?_concat
    exact ⟨finished, depth, same depth (Nat.le_refl _)⟩

end Session
end Lisplet
