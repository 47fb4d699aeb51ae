import Lisplet.Eval.Session
import Lisplet.Proofs.Eval.Finishes
import Lisplet.Proofs.Eval.Realm
/-!
Early endings. A context is an expression with a hole that is evaluated in the scope of the whole,
so the hole is not inside the body of a function. It is cut in layers, the outermost first, and a
layer knows the parts that are evaluated before the hole. All its other parts stand apart, in
`Later`: whether the hole is reached does not depend on them (`Reached`).

If the expression in a hole that is reached ends early, the layer around it ends in the same way
(`finishes_fill`), and so does the whole, whatever stands in the parts that come later
(`early_ending_stops`).
-/
namespace Lisplet

/-- One layer around a hole: the form, and those of its parts that come before the hole. -/
inductive Layer where
  | block (line : Nat) (before : List Expr)
  | assign (line : Nat) (mode : AssignMode) (name : String)
  | callee (line : Nat)
  | argument (line : Nat) (callee : Expr) (before : List Expr)
  | leave (line : Nat)
  | condition (line : Nat)
  | thenBranch (line : Nat) (condition : Expr)
  | elseBranch (line : Nat) (condition : Expr)
  | property (line : Nat) (before : List (String × Expr)) (name : String)
  | receiver (line : Nat) (name : String)
  | setReceiver (line : Nat) (name : String)
  | setValue (line : Nat) (receiver : Expr) (name : String)
  | methodReceiver (line : Nat) (name : String)
  | methodArgument (line : Nat) (receiver : Expr) (name : String) (before : List Expr)

namespace Layer

/-- The parts of the form that come after the hole, or that are there in its place. -/
def Later : Layer → Type
  | .block .. | .callee .. | .argument .. | .methodReceiver .. | .methodArgument .. => List Expr
  | .condition .. => Expr × Expr
  | .thenBranch .. | .elseBranch .. | .setReceiver .. => Expr
  | .property .. => List (String × Expr)
  | .assign .. | .leave .. | .receiver .. | .setValue .. => Unit

/-- The form with its later parts and with an expression in the hole. -/
def fill : (l : Layer) → l.Later → Expr → Expr
  | .block line before, after, e => .block line (List.append before (e :: after))
  | .assign line mode name, _, e => .assign line mode name e
  | .callee line, arguments, e => .call line e arguments
  | .argument line function before, after, e =>
    .call line function (List.append before (e :: after))
  | .leave line, _, e => .leave line e
  | .condition line, branches, e => .conditional line e branches.1 branches.2
  | .thenBranch line test, other, e => .conditional line test e other
  | .elseBranch line test, other, e => .conditional line test other e
  | .property line before name, after, e => .object line (List.append before ((name, e) :: after))
  | .receiver line name, _, e => .field line e name
  | .setReceiver line name, value, e => .setField line e name value
  | .setValue line object name, _, e => .setField line object name e
  | .methodReceiver line name, arguments, e => .method line e name arguments
  | .methodArgument line object name before, after, e =>
    .method line object name (List.append before (e :: after))

end Layer

/-- An expression with a hole, the outermost layer first. -/
abbrev Context := List (Sigma Layer.Later)

namespace Context

/-- All that comes before the hole. -/
def layers (K : Context) : List Layer := K.map (·.1)

def fill (K : Context) (e : Expr) : Expr := K.foldr (fun l e => l.1.fill l.2 e) e

end Context

namespace Eval

open Lisplet.Action

variable {ν σ : Type} [Native ν] [Sink σ]

/-- The expressions give values, one after the other. -/
inductive Completes (scope : Ref) : List Expr → World ν σ → World ν σ → Prop where
  | nil {w} : Completes scope [] w w
  | cons {e es v w w₁ w'} (first : Finishes scope e w (.ok v) w₁)
      (rest : Completes scope es w₁ w') : Completes scope (e :: es) w w'

/-- The properties get values, one after the other, and each is set at once. -/
inductive Fills (scope object : Ref) : List (String × Expr) → World ν σ → World ν σ → Prop where
  | nil {w} : Fills scope object [] w w
  | cons {name e ps v w w₁ w'} (first : Finishes scope e w (.ok v) w₁)
      (here : object.index < w₁.heap.objects.size)
      (rest : Fills scope object ps { w₁ with heap := w₁.heap.register object name v } w') :
      Fills scope object ((name, e) :: ps) w w'

/-- From the world `w` evaluation gets to the hole of the layer, and there the world is `w'`: what
comes before the hole gives values, and what is checked before it is in order. -/
inductive Enters (scope : Ref) : Layer → World ν σ → World ν σ → Prop where
  | block {line before w w'} (operands : Completes scope before w w') :
      Enters scope (.block line before) w w'
  | assign {line mode name known w} (found : w.heap.lookup? scope name = some known)
      (allowed : mode = .declare ↔ known = .undefined) :
      Enters scope (.assign line mode name) w w
  | callee {line w} : Enters scope (.callee line) w w
  | argument {line callee before f w w₁ w'}
      (callable : Finishes scope callee w (.ok (.object f)) w₁)
      (function : w₁.heap.IsFunction f) (operands : Completes scope before w₁ w') :
      Enters scope (.argument line callee before) w w'
  | leave {line w} : Enters scope (.leave line) w w
  | condition {line w} : Enters scope (.condition line) w w
  | thenBranch {line condition v w w'} (chosen : Finishes scope condition w (.ok v) w')
      (truthy : v.isTruthy = true) : Enters scope (.thenBranch line condition) w w'
  | elseBranch {line condition v w w'} (chosen : Finishes scope condition w (.ok v) w')
      (falsy : v.isTruthy = false) : Enters scope (.elseBranch line condition) w w'
  | property {line before name w w'}
      (operands : Fills scope (w.heap.alloc { kind := .plain }).1 before
        { w with heap := (w.heap.alloc { kind := .plain }).2 } w') :
      Enters scope (.property line before name) w w'
  | receiver {line name w} : Enters scope (.receiver line name) w w
  | setReceiver {line name w} : Enters scope (.setReceiver line name) w w
  | setValue {line receiver name r w w'} (object : Finishes scope receiver w (.ok (.object r)) w') :
      Enters scope (.setValue line receiver name) w w'
  | methodReceiver {line name w} : Enters scope (.methodReceiver line name) w w
  | methodArgument {line receiver name before r f w w₁ w'}
      (object : Finishes scope receiver w (.ok (.object r)) w₁)
      (found : w₁.heap.lookup? r name = some (.object f)) (function : w₁.heap.IsFunction f)
      (operands : Completes scope before w₁ w') :
      Enters scope (.methodArgument line receiver name before) w w'

/-- Evaluation gets from layer to layer and to the hole of the innermost one. -/
inductive Reached (scope : Ref) : List Layer → World ν σ → World ν σ → Prop where
  | hole {w} : Reached scope [] w w
  | layer {l ls w w₁ w'} (enters : Enters scope l w w₁) (rest : Reached scope ls w₁ w') :
      Reached scope (l :: ls) w w'

omit [Native ν] [Sink σ] in
theorem run_lookup {w : World ν σ} {r : Ref} {name : String} {v : Value}
    (found : w.heap.lookup? r name = some v) : lookup r name w = (.ok v, w) := by
  simp only [lookup, found]

omit [Native ν] [Sink σ] in
theorem run_expectFunction {w : World ν σ} {f : Ref} (function : w.heap.IsFunction f) (line : Nat) :
    expectFunction (.object f) line w = (.ok f, w) := by
  obtain ⟨o, ho, kind⟩ := function
  have known : kindOf f w = (.ok o.kind, w) := by simp only [kindOf, ho]
  refine (run_bind_ok known _).trans ?_
  rw [if_pos kind, run_pure]

omit [Native ν] [Sink σ] in
theorem run_register {w : World ν σ} {r : Ref} (here : r.index < w.heap.objects.size)
    (name : String) (v : Value) :
    register r name v w = (.ok (), { w with heap := w.heap.register r name v }) := by
  simp only [register, if_pos here]

section
variable {scope : Ref} {e : Expr} {ending : Ending} {w w' w'' : World ν σ}
  (early : Finishes scope e w' (.error ending) w'')
include early

theorem settles_evalAll {before : List Expr} (operands : Completes scope before w w')
    (after : List Expr) :
    Settles (fun d => evalAll (evaluate d) scope (before ++ e :: after)) w (.error ending) w'' := by
  induction operands with
  | nil => exact early.settles.bind_error _
  | cons first _ ih => exact first.settles.bind ((ih early).bind_error _)

theorem settles_evalProperties {object : Ref} {before : List (String × Expr)}
    (operands : Fills scope object before w w') (name : String) (after : List (String × Expr)) :
    Settles (fun d => evalProperties (evaluate d) scope object (before ++ (name, e) :: after)) w
      (.error ending) w'' := by
  induction operands with
  | nil => exact early.settles.bind_error _
  | cons first here _ ih =>
    exact first.settles.bind (Settles.bind (.const (run_register here _ _)) (ih early))

theorem settles_evalAssign {known : Value} {mode : AssignMode} {name : String}
    (found : w'.heap.lookup? scope name = some known)
    (allowed : mode = .declare ↔ known = .undefined) (line : Nat) :
    Settles (fun d => evalAssign (evaluate d) scope line mode name e) w' (.error ending) w'' := by
  refine Settles.bind (.const (run_lookup found)) ?_
  cases mode with
  | declare =>
    obtain rfl := allowed.1 rfl
    exact early.settles.bind_error _
  | update =>
    have defined : known.isUndefined = false := by
      cases known with
      | undefined => exact absurd (allowed.2 rfl) (by decide)
      | _ => rfl
    simp only [defined]
    exact early.settles.bind_error _

/-- An early ending in the hole of a layer ends the layer. -/
theorem finishes_fill {l : Layer} (enters : Enters scope l w w') (later : l.Later) :
    Finishes scope (l.fill later e) w (.error ending) w'' := by
  refine .of_step early.1 ?_
  cases enters with
  | block operands => exact (settles_evalAll early operands later).bind_error _
  | assign found allowed => exact settles_evalAssign early found allowed _
  | callee | leave | condition | receiver | setReceiver | methodReceiver =>
    exact early.settles.bind_error _
  | argument callable function operands =>
    exact callable.settles.bind (Settles.bind (.const (run_expectFunction function _))
      ((settles_evalAll early operands later).bind_error _))
  | thenBranch chosen truthy =>
    refine chosen.settles.bind ?_
    simp only [truthy, if_true]
    exact early.settles
  | elseBranch chosen falsy =>
    refine chosen.settles.bind ?_
    simp only [falsy, Bool.false_eq_true, if_false]
    exact early.settles
  | property operands =>
    exact Settles.bind (.const rfl) ((settles_evalProperties early operands _ later).bind_error _)
  | setValue object =>
    exact object.settles.bind (Settles.bind (.const rfl) (early.settles.bind_error _))
  | methodArgument object found function operands =>
    exact object.settles.bind (Settles.bind (.const rfl)
      (Settles.bind (.const (run_lookup found))
        (Settles.bind (.const (run_expectFunction function _))
          ((settles_evalAll early operands later).bind_error _))))

/-- An early ending in the hole of a context ends the whole. -/
theorem finishes_context_fill {layers : List Layer} (reached : Reached scope layers w w')
    {K : Context} (same : K.layers = layers) : Finishes scope (K.fill e) w (.error ending) w'' := by
  -- From the outermost layer inwards. What a layer has in its hole is the rest of the context,
  -- filled, and by induction that ends as `e` does.
  induction reached generalizing K with
  | hole =>
    obtain rfl := List.map_eq_nil_iff.1 same
    exact early
  | layer enters _ ih =>
    obtain ⟨⟨l, later⟩, inner, rfl, rfl, rest⟩ := List.map_eq_cons_iff.1 same
    exact finishes_fill (ih early rest) enters later

end

/-- An expression that ends early, in a hole that is reached, ends all that is around it: the whole
ends in the same way, it leaves the world that the expression left, and what stands in the parts
that come later makes no difference. -/
theorem early_ending_stops {scope : Ref} {e : Expr} {ending : Ending} {w w' w'' : World ν σ}
    {layers : List Layer} (reached : Reached scope layers w w')
    (early : Finishes scope e w' (.error ending) w'') (K : Context) (same : K.layers = layers)
    (r : Except Ending Value) (last : World ν σ) :
    Finishes scope (K.fill e) w r last ↔ r = .error ending ∧ last = w'' := by
  have finishes := finishes_context_fill early reached same
  constructor
  · intro h
    exact h.unique finishes
  · rintro ⟨rfl, rfl⟩
    exact finishes

/-- A `return` inside an argument, inside a branch, inside a block that has already printed. -/
theorem early_ending_stops_return :
    Finishes ⟨0⟩
      (Context.fill
        [⟨.block 1 [.call 1 (.access 1 "print") [.literal 1 (.string "a")]],
            [.call 4 (.access 4 "print") [.literal 4 (.string "b")]]⟩,
          ⟨.thenBranch 2 (.literal 2 (.integer 1)), .access 3 "missing"⟩,
          ⟨.argument 2 (.access 2 "+") [.literal 2 (.integer 1)],
            [.call 2 (.access 2 "print") [.literal 2 (.string "c")]]⟩]
        (.leave 2 (.literal 2 (.integer 2))))
      (Session.start Transcript.empty).world (.error (.returned (.integer 2)))
      ⟨(Session.start Transcript.empty).world.heap, ⟨#["a"]⟩⟩ := by
  have printed : Completes ⟨0⟩ [.call 1 (.access 1 "print") [.literal 1 (.string "a")]]
      (Session.start Transcript.empty).world
      ⟨(Session.start Transcript.empty).world.heap, ⟨#["a"]⟩⟩ :=
    .cons ⟨by simp, 3, rfl⟩ .nil
  have plus : Finishes ⟨0⟩ (.access 2 "+")
      (⟨(Session.start Transcript.empty).world.heap, ⟨#["a"]⟩⟩ : World Builtin Transcript)
      (.ok (.object ⟨2⟩)) ⟨(Session.start Transcript.empty).world.heap, ⟨#["a"]⟩⟩ :=
    ⟨by simp, 1, rfl⟩
  have one (w : World Builtin Transcript) :
      Finishes ⟨0⟩ (.literal 2 (.integer 1)) w (.ok (.integer 1)) w := ⟨by simp, 1, rfl⟩
  refine (early_ending_stops (.layer (.block printed) (.layer (.thenBranch (one _) (by decide))
    (.layer (.argument plus ⟨_, rfl, rfl⟩ (.cons (one _) .nil)) .hole))) ?_ _ rfl _ _).2 ⟨rfl, rfl⟩
  exact ⟨by simp, 2, rfl⟩

end Eval
end Lisplet
