import Lisplet.Eval.Depth
/-!
Evaluation without a depth. An evaluation finishes when some depth is enough for it, and how it ends
does not depend on which (`Finishes.unique`). An action that is made from evaluations settles if
these finish: the rules for sequences (`Settles.bind`, `Settles.bind_error`) need no depths, so a big
step is put together from the big steps of its parts (`Finishes.of_step`).
-/
namespace Lisplet
namespace Eval

open Lisplet.Action

variable {ν σ α β : Type}

/-- From some depth on the action does the same in the world `w`: it gives `r` and leaves `w'`. -/
def Settles (m : Nat → Action ν σ α) (w : World ν σ) (r : Except Ending α) (w' : World ν σ) :
    Prop :=
  ∃ depth, ∀ d, depth ≤ d → m d w = (r, w')

namespace Settles

variable {w w₁ w' : World ν σ}

theorem const {m : Action ν σ α} {r : Except Ending α} (h : m w = (r, w')) :
    Settles (fun _ => m) w r w' :=
  ⟨0, fun _ _ => h⟩

theorem bind {m : Nat → Action ν σ α} {f : Nat → α → Action ν σ β} {a : α} {r : Except Ending β}
    (first : Settles m w (.ok a) w₁) (second : Settles (fun d => f d a) w₁ r w') :
    Settles (fun d => m d >>= f d) w r w' := by
  obtain ⟨d₁, h₁⟩ := first
  obtain ⟨d₂, h₂⟩ := second
  refine ⟨max d₁ d₂, fun d hd => ?_⟩
  exact (run_bind_ok (h₁ d (by omega)) (f d)).trans (h₂ d (by omega))

/-- What comes after an action that ends early is not done. -/
theorem bind_error {m : Nat → Action ν σ α} {e : Ending} (first : Settles m w (.error e) w')
    (f : Nat → α → Action ν σ β) : Settles (fun d => m d >>= f d) w (.error e) w' := by
  obtain ⟨depth, h⟩ := first
  exact ⟨depth, fun d hd => run_bind_error (h d hd) (f d)⟩

end Settles

variable [Native ν] [Sink σ]

/-- Evaluating the expression in the scope, from the world `w`, comes to an end: it gives `r` and
leaves the world `w'`. -/
def Finishes (scope : Ref) (e : Expr) (w : World ν σ) (r : Except Ending Value) (w' : World ν σ) :
    Prop :=
  r ≠ .error .exhausted ∧ ∃ depth, evaluate depth scope e w = (r, w')

namespace Finishes

variable {scope : Ref} {e : Expr} {w w' : World ν σ} {r : Except Ending Value}

theorem settles (h : Finishes scope e w r w') : Settles (fun d => evaluate d scope e) w r w' := by
  obtain ⟨finished, depth, h⟩ := h
  refine ⟨depth, fun d hd => ?_⟩
  have same := evaluate_of_le hd scope e w (by rw [h]; exact finished)
  exact same.trans h

/-- An evaluation ends as its first step does, given that its parts are evaluated to their ends. -/
theorem of_step (finished : r ≠ .error .exhausted)
    (h : Settles (fun d => step (evaluate d) scope e) w r w') : Finishes scope e w r w' := by
  obtain ⟨depth, h⟩ := h
  exact ⟨finished, depth + 1, h depth (Nat.le_refl depth)⟩

theorem unique {r' : Except Ending Value} {w'' : World ν σ} (h : Finishes scope e w r w')
    (h' : Finishes scope e w r' w'') : r = r' ∧ w' = w'' := by
  obtain ⟨d₁, h₁⟩ := h.settles
  obtain ⟨d₂, h₂⟩ := h'.settles
  have same := (h₁ (max d₁ d₂) (by omega)).symm.trans (h₂ (max d₁ d₂) (by omega))
  exact Prod.mk.inj same

end Finishes
end Eval
end Lisplet
