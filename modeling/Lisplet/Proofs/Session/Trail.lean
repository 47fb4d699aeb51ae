import Lisplet.Proofs.Eval.Likeness
/-!
A run form by form. The trail of a run lists what each form gave and the session that it left, up to
the first form that gave no value. The run as a whole is told from the end of its trail
(`evaluateAll_eq_conclude`), and alike programs leave alike trails (`trail_alike`).
-/
namespace Lisplet
namespace Session

variable {σ τ : Type}

/-- How a run that left this trail ended, if it began in the session `s`. -/
def conclude (s : Session σ) (steps : List (Except Ending Value × Session σ)) :
    Except Ending Unit × Session σ :=
  (steps.getLast?.map fun x => (x.1.map fun _ => (), x.2)).getD (.ok (), s)

theorem conclude_cons (s s' : Session σ) (v : Value)
    (steps : List (Except Ending Value × Session σ)) :
    s.conclude ((.ok v, s') :: steps) = s'.conclude steps := by
  cases steps with
  | nil => rfl
  | cons => simp [conclude, List.getLast?_cons]

variable [Sink σ] [Sink τ]

/-- What each form gives and the session that it leaves, until one gives no value. -/
def trail (depth : Nat) (s : Session σ) : List Expr → List (Except Ending Value × Session σ)
  | [] => []
  | e :: es =>
    match evaluate depth s e with
    | (.ok v, s') => (.ok v, s') :: trail depth s' es
    | (.error ending, s') => [(.error ending, s')]

/-- The last form of the trail decides how the run ends. -/
theorem evaluateAll_eq_conclude (depth : Nat) (s : Session σ) (es : List Expr) :
    s.evaluateAll depth es = s.conclude (s.trail depth es) := by
  induction es generalizing s with
  | nil => rfl
  | cons e es ih =>
    rcases h : s.evaluate depth e with ⟨ending | v, s'⟩
    · simp only [evaluateAll, trail, h]
      rfl
    · simp only [evaluateAll, trail, h, conclude_cons]
      exact ih s'

section
variable {R : Likeness σ τ} {s : Session σ} {s' : Session τ} (sessions : R.Sessions s s')
  (depth : Nat)
include sessions

/-- Alike forms end early in alike ways or give the same value. -/
theorem evaluate_alike_cases {e e' : Expr} (code : R.code e e') :
    (∃ ending ending' s₁ s₁', s.evaluate depth e = (.error ending, s₁) ∧
      s'.evaluate depth e' = (.error ending', s₁') ∧ R.Endings ending ending' ∧
      R.Sessions s₁ s₁') ∨
    ∃ v s₁ s₁', s.evaluate depth e = (.ok v, s₁) ∧ s'.evaluate depth e' = (.ok v, s₁') ∧
      R.Sessions s₁ s₁' := by
  obtain ⟨results, later⟩ := evaluate_alike sessions depth code
  rcases h : s.evaluate depth e with ⟨ending | v, s₁⟩ <;>
    rcases h' : s'.evaluate depth e' with ⟨ending' | v', s₁'⟩ <;>
    rw [h, h'] at results later <;> cases results
  · next endings => exact .inl ⟨ending, ending', s₁, s₁', rfl, rfl, endings, later⟩
  · next same => exact .inr ⟨v, s₁, s₁', rfl, same ▸ rfl, later⟩

/-- Alike forms leave alike trails. -/
theorem trail_alike {es es' : List Expr} (code : List.Forall₂ R.code es es') :
    List.Forall₂ (fun x y => R.Results Eq x.1 y.1 ∧ R.Sessions x.2 y.2) (s.trail depth es)
      (s'.trail depth es') := by
  induction code generalizing s s' with
  | nil => exact .nil
  | cons head _ ih =>
    rcases evaluate_alike_cases sessions depth head with
      ⟨_, _, _, _, h, h', endings, later⟩ | ⟨_, _, _, h, h', later⟩
    · simp only [trail, h, h']
      exact .cons ⟨.error endings, later⟩ .nil
    · simp only [trail, h, h']
      exact .cons ⟨.ok rfl, later⟩ (ih later)

/-- Alike forms are run alike. -/
theorem evaluateAll_alike {es es' : List Expr} (code : List.Forall₂ R.code es es') :
    R.Results Eq (s.evaluateAll depth es).1 (s'.evaluateAll depth es').1 ∧
      R.Sessions (s.evaluateAll depth es).2 (s'.evaluateAll depth es').2 := by
  induction code generalizing s s' with
  | nil => exact ⟨.ok rfl, sessions⟩
  | cons head _ ih =>
    rcases evaluate_alike_cases sessions depth head with
      ⟨_, _, _, _, h, h', endings, later⟩ | ⟨_, _, _, h, h', later⟩
    · simp only [evaluateAll, h, h']
      exact ⟨.error endings, later⟩
    · simp only [evaluateAll, h, h']
      exact ih later

end

end Session
end Lisplet
