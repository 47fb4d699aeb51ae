import Lisplet.Eval.Evaluator
/-!
The depth limit decides whether an evaluation gets to its end, and nothing else: at every greater
depth the result and the world it leaves are the same (`evaluate_of_le`).
-/
namespace Lisplet

variable {ν σ α β : Type}

namespace Action

/-- Wherever the first action is not cut short by the depth limit, the second does the same. -/
def Within (a b : Action ν σ α) : Prop := ∀ w, (a w).1 ≠ .error .exhausted → b w = a w

theorem Within.refl (a : Action ν σ α) : Within a a := fun _ _ => rfl

theorem Within.trans {a b c : Action ν σ α} (h₁ : Within a b) (h₂ : Within b c) : Within a c := by
  intro w h
  have hb := h₁ w h
  rw [h₂ w (by rwa [hb]), hb]

/-- A sequence is cut short if its first part is. -/
theorem Within.bind {m m' : Action ν σ α} {f f' : α → Action ν σ β} (hm : Within m m')
    (hf : ∀ a, Within (f a) (f' a)) : Within (m >>= f) (m' >>= f') := by
  intro w h
  rw [run_bind] at h ⊢
  rw [run_bind]
  have hne : (m w).1 ≠ .error .exhausted := by
    intro hc
    rcases hw : m w with ⟨r, w'⟩
    rw [hw] at h hc
    subst hc
    exact h rfl
  rw [hm w hne]
  rcases hw : m w with ⟨_ | a, w'⟩
  · rfl
  · rw [hw] at h
    exact hf a w' h

theorem Within.catchReturn {m m' : Action ν σ Value} (hm : Within m m') :
    Within (catchReturn m) (catchReturn m') := by
  intro w h
  have hne : (m w).1 ≠ .error .exhausted := by
    intro hc
    rcases hw : m w with ⟨r, w'⟩
    rw [hw] at hc
    subst hc
    simp [Action.catchReturn, hw] at h
  simp only [Action.catchReturn, hm w hne]

end Action

namespace Eval

open Lisplet.Action

section
variable {go go' : Ref → Expr → Action ν σ Value} (hgo : ∀ r e, Within (go r e) (go' r e))
include hgo

theorem evalAll_within (scope : Ref) (es : List Expr) :
    Within (evalAll go scope es) (evalAll go' scope es) := by
  induction es with
  | nil => exact .refl _
  | cons e es ih => exact (hgo scope e).bind fun _ => ih.bind fun _ => .refl _

theorem evalProperties_within (scope object : Ref) (properties : List (String × Expr)) :
    Within (evalProperties go scope object properties)
      (evalProperties go' scope object properties) := by
  induction properties with
  | nil => exact .refl _
  | cons p ps ih => exact (hgo scope p.2).bind fun _ => (Within.refl _).bind fun _ => ih

theorem callClosure_within (name : String) (c : Closure) (inv : Invocation) :
    Within (callClosure go name c inv) (callClosure go' name c inv) := by
  unfold callClosure
  split
  · exact (Within.refl _).bind fun scope => (Within.refl _).bind fun _ =>
      (Within.refl _).bind fun _ => (hgo scope c.body).catchReturn
  · exact .refl _

theorem evalAssign_within (scope : Ref) (line : Nat) (mode : AssignMode) (name : String)
    (value : Expr) :
    Within (evalAssign go scope line mode name value)
      (evalAssign go' scope line mode name value) := by
  refine (Within.refl _).bind fun known => ?_
  split
  · exact .refl _
  · exact .refl _
  · exact (hgo scope value).bind fun _ => .refl _

variable [Native ν] [Sink σ]

theorem apply_within (inv : Invocation) : Within (apply go inv) (apply go' inv) := by
  refine (Within.refl _).bind fun kind => ?_
  split
  · exact .refl _
  · exact callClosure_within hgo _ _ inv
  · exact .refl _

/-- What holds of the parts of an expression holds of the expression. -/
theorem step_within (scope : Ref) (e : Expr) : Within (step go scope e) (step go' scope e) := by
  cases e with
  | literal | access | function => exact .refl _
  | block _ body => exact (evalAll_within hgo scope body).bind fun _ => .refl _
  | assign line mode name value => exact evalAssign_within hgo scope line mode name value
  | call line callee arguments =>
    exact (hgo scope callee).bind fun _ => (Within.refl _).bind fun _ =>
      (evalAll_within hgo scope arguments).bind fun _ => apply_within hgo _
  | leave _ value => exact (hgo scope value).bind fun _ => .refl _
  | conditional _ condition thenBranch elseBranch =>
    refine (hgo scope condition).bind fun v => ?_
    split
    · exact hgo scope thenBranch
    · exact hgo scope elseBranch
  | object _ properties =>
    exact (Within.refl _).bind fun r =>
      (evalProperties_within hgo scope r properties).bind fun _ => .refl _
  | field _ receiver _ => exact (hgo scope receiver).bind fun _ => .refl _
  | setField _ receiver _ value =>
    exact (hgo scope receiver).bind fun _ => (Within.refl _).bind fun _ =>
      (hgo scope value).bind fun _ => .refl _
  | method _ receiver _ arguments =>
    exact (hgo scope receiver).bind fun _ => (Within.refl _).bind fun _ =>
      (Within.refl _).bind fun _ => (Within.refl _).bind fun _ =>
        (evalAll_within hgo scope arguments).bind fun _ => apply_within hgo _
end

variable [Native ν] [Sink σ]

theorem evaluate_within_succ (depth : Nat) (scope : Ref) (e : Expr) :
    Within (evaluate depth scope e : Action ν σ Value) (evaluate (depth + 1) scope e) := by
  induction depth generalizing scope e with
  | zero => exact fun _ h => absurd rfl h
  | succ depth ih => exact step_within ih scope e

/-- An evaluation that gets to its end does the same at every greater depth. -/
theorem evaluate_of_le {depth depth' : Nat} (hle : depth ≤ depth') (scope : Ref) (e : Expr) :
    Within (evaluate depth scope e : Action ν σ Value) (evaluate depth' scope e) := by
  induction hle with
  | refl => exact .refl _
  | step _ ih => exact ih.trans (evaluate_within_succ _ scope e)

end Eval
end Lisplet
