import Mathlib.Data.List.Forall2
import Lisplet.Proofs.Expr.Parts
import Lisplet.Proofs.Eval.Likeness
/-!
Blocks in blocks. To flatten an expression is to put the instructions of a block that stands in a block
in its place, everywhere in the expression and until no block stands in another (`flat_flatten`). The
expression itself, the body of a function and the branches of a conditional are blocks still if they
were.

What a block comes down to are its leaves, the instructions of it and of the blocks in it that are no
blocks. Two expressions become the same when they are flattened if they are blocks whose leaves do so
one by one, or no blocks and the same but for their parts, which do so (`flatten_eq_cases`).
-/
namespace Lisplet
namespace Expr

/-- The instructions of a block; anything else is an instruction itself. -/
def instructions : Expr → List Expr
  | .block _ body => body
  | e => [e]

mutual
/-- The expression with every block that is an instruction of a block replaced by its instructions. -/
def flatten : Expr → Expr
  | .literal l v => .literal l v
  | .block l body => .block l (flattenBody body)
  | .access l x => .access l x
  | .assign l mode x value => .assign l mode x value.flatten
  | .function l name parameters body => .function l name parameters body.flatten
  | .call l callee arguments => .call l callee.flatten (flattenAll arguments)
  | .leave l value => .leave l value.flatten
  | .conditional l condition yes no =>
    .conditional l condition.flatten yes.flatten no.flatten
  | .object l properties => .object l (flattenProperties properties)
  | .field l receiver x => .field l receiver.flatten x
  | .setField l receiver x value => .setField l receiver.flatten x value.flatten
  | .method l receiver x arguments => .method l receiver.flatten x (flattenAll arguments)

/-- The instructions of a block, those of the blocks among them in their place. -/
def flattenBody : List Expr → List Expr
  | [] => []
  | e :: es => e.flatten.instructions ++ flattenBody es

def flattenAll : List Expr → List Expr
  | [] => []
  | e :: es => e.flatten :: flattenAll es

def flattenProperties : List (String × Expr) → List (String × Expr)
  | [] => []
  | (x, e) :: properties => (x, e.flatten) :: flattenProperties properties
end

mutual
/-- What is left of an instruction when the blocks in it are opened. -/
def leaves : Expr → List Expr
  | .block _ body => leavesAll body
  | e => [e]

def leavesAll : List Expr → List Expr
  | [] => []
  | e :: es => e.leaves ++ leavesAll es
end

theorem flattenBody_eq_flatMap (es : List Expr) :
    flattenBody es = es.flatMap fun e => e.flatten.instructions := by
  induction es with
  | nil => rfl
  | cons e es ih => rw [flattenBody, ih, List.flatMap_cons]

theorem flattenAll_eq_map (es : List Expr) : flattenAll es = es.map flatten := by
  induction es with
  | nil => rfl
  | cons e es ih => rw [flattenAll, ih, List.map_cons]

theorem flattenProperties_eq_map (ps : List (String × Expr)) :
    flattenProperties ps = ps.map fun p => (p.1, p.2.flatten) := by
  induction ps with
  | nil => rfl
  | cons p ps ih => rw [flattenProperties, ih, List.map_cons]

theorem leavesAll_eq_flatMap (es : List Expr) : leavesAll es = es.flatMap leaves := by
  induction es with
  | nil => rfl
  | cons e es ih => rw [leavesAll, ih, List.flatMap_cons]

theorem instructions_of_not_block {e : Expr} (h : e.isBlock = false) : e.instructions = [e] := by
  cases e with
  | block => cases h
  | _ => rfl

@[simp] theorem isBlock_flatten (e : Expr) : e.flatten.isBlock = e.isBlock := by
  cases e <;> rfl

@[simp] theorem line_flatten (e : Expr) : e.flatten.line = e.line := by
  cases e <;> rfl

/-- The parts of a flattened expression. -/
theorem parts_flatten (e : Expr) : e.flatten.parts =
    if e.isBlock then e.parts.flatMap fun p => p.flatten.instructions else e.parts.map flatten := by
  cases e <;>
    simp [flatten, parts, isBlock, flattenBody_eq_flatMap, flattenAll_eq_map,
      flattenProperties_eq_map]

/-- Flattened, the leaves of an instruction are the instructions that it becomes. -/
theorem map_flatten_leaves (e : Expr) : e.leaves.map flatten = e.flatten.instructions := by
  induction e using Expr.induction with
  | block l body ih =>
    rw [leaves, flatten, instructions, leavesAll_eq_flatMap, flattenBody_eq_flatMap,
      List.map_flatMap]
    exact List.flatMap_congr ih
  | _ => rfl

theorem map_flatten_leavesAll (es : List Expr) : (leavesAll es).map flatten = flattenBody es := by
  rw [leavesAll_eq_flatMap, flattenBody_eq_flatMap, List.map_flatMap]
  exact List.flatMap_congr fun e _ => map_flatten_leaves e

/-! Flat expressions. -/

/-- Nowhere in the expression is a block an instruction of a block. -/
def Flat (e : Expr) : Prop :=
  ∀ n ∈ e.nodes, n.isBlock = true → ∀ p ∈ n.parts, p.isBlock = false

theorem flat_iff {e : Expr} : e.Flat ↔
    (e.isBlock = true → ∀ p ∈ e.parts, p.isBlock = false) ∧ ∀ p ∈ e.parts, p.Flat := by
  rw [Flat, nodes_eq_cons, List.forall_mem_cons]
  refine and_congr_right fun _ => ?_
  simp only [List.mem_flatMap, Flat]
  exact ⟨fun h p hp n hn => h n ⟨p, hp, hn⟩, fun h n ⟨p, hp, hn⟩ => h p hp n hn⟩

theorem flat_of_instructions {e : Expr}
    (h : ∀ x ∈ e.instructions, x.isBlock = false ∧ x.Flat) : e.Flat := by
  cases block : e.isBlock with
  | false =>
    rw [instructions_of_not_block block] at h
    exact (h e (List.mem_singleton.mpr rfl)).2
  | true =>
    cases e with
    | block l body => exact flat_iff.mpr ⟨fun _ p hp => (h p hp).1, fun p hp => (h p hp).2⟩
    | _ => cases block

/-- What an instruction becomes are no blocks, and there are no blocks in blocks in it. -/
theorem flat_of_mem_instructions (e : Expr) :
    ∀ x ∈ e.flatten.instructions, x.isBlock = false ∧ x.Flat := by
  induction e using inductionOnParts with
  | step e ih =>
    intro x hx
    cases block : e.isBlock with
    | true =>
      cases e with
      | block l body =>
        rw [flatten, instructions, flattenBody_eq_flatMap] at hx
        obtain ⟨p, hp, hx⟩ := List.mem_flatMap.mp hx
        exact ih p hp x hx
      | _ => cases block
    | false =>
      rw [instructions_of_not_block (by rw [isBlock_flatten, block])] at hx
      obtain rfl := List.mem_singleton.mp hx
      refine ⟨by rw [isBlock_flatten, block], flat_iff.mpr ⟨by simp [block], ?_⟩⟩
      intro q hq
      rw [parts_flatten, block] at hq
      obtain ⟨p, hp, rfl⟩ := List.mem_map.mp hq
      exact flat_of_instructions (ih p hp)

/-- In a flattened expression no block stands in another. -/
theorem flat_flatten (e : Expr) : e.flatten.Flat := flat_of_instructions e.flat_of_mem_instructions

/-- A flat expression is left as it is. -/
theorem flatten_of_flat {e : Expr} (h : e.Flat) : e.flatten = e := by
  induction e using inductionOnParts with
  | step e ih =>
    obtain ⟨own, below⟩ := flat_iff.mp h
    have same : ∀ p ∈ e.parts, p.flatten = p := fun p hp => ih p hp (below p hp)
    cases e with
    | literal | access => rfl
    | block l body =>
      have each : ∀ p ∈ body, p.flatten.instructions = [p] := fun p hp => by
        rw [same p hp, instructions_of_not_block (own rfl p hp)]
      rw [flatten, flattenBody_eq_flatMap, List.flatMap_congr each, List.flatMap_singleton']
    | assign | function | leave | field => rw [flatten, same _ List.mem_cons_self]
    | call | method =>
      obtain ⟨head, rest⟩ := List.forall_mem_cons.mp same
      rw [flatten, flattenAll_eq_map, head, List.map_congr_left rest, List.map_id']
    | conditional l condition yes no =>
      obtain ⟨head, rest⟩ := List.forall_mem_cons.mp same
      rw [flatten, head, rest yes List.mem_cons_self, rest no (by simp)]
    | object l properties =>
      have each : ∀ p ∈ properties, (p.1, p.2.flatten) = p := fun p hp =>
        Prod.ext rfl (same p.2 (List.mem_map_of_mem hp))
      rw [flatten, flattenProperties_eq_map, List.map_congr_left each, List.map_id']
    | setField l receiver x value =>
      obtain ⟨head, rest⟩ := List.forall_mem_cons.mp same
      rw [flatten, head, rest value List.mem_cons_self]

@[simp] theorem flatten_flatten (e : Expr) : e.flatten.flatten = e.flatten :=
  flatten_of_flat e.flat_flatten

/-- Expressions that become the same are blocks whose leaves do, or have the same form. -/
theorem flatten_eq_cases {e e' : Expr} (h : e.flatten = e'.flatten) :
    (∃ l body body', e = .block l body ∧ e' = .block l body' ∧
      List.Forall₂ (fun a b => a.flatten = b.flatten) (leavesAll body) (leavesAll body')) ∨
    e.Matches Eq (fun a b => a.flatten = b.flatten) e' := by
  cases e <;> cases e' <;>
    simp only [flatten, flattenAll_eq_map, flattenProperties_eq_map, reduceCtorEq] at h
  case block.block l body l' body' =>
    obtain ⟨rfl, same⟩ := Expr.block.inj h
    rw [← map_flatten_leavesAll, ← map_flatten_leavesAll] at same
    exact .inl ⟨l, body, body', rfl, rfl, forall₂_of_map_eq same⟩
  case literal.literal =>
    cases h
    exact .inr (.literal _ rfl)
  case access.access =>
    cases h
    exact .inr (.access _ rfl)
  case assign.assign =>
    obtain ⟨lines, rfl, rfl, value⟩ := Expr.assign.inj h
    exact .inr (.assign _ _ lines value)
  case function.function =>
    obtain ⟨lines, rfl, rfl, body⟩ := Expr.function.inj h
    exact .inr (.function _ _ lines body)
  case call.call =>
    obtain ⟨lines, callee, arguments⟩ := Expr.call.inj h
    exact .inr (.call lines callee (forall₂_of_map_eq arguments))
  case leave.leave =>
    obtain ⟨lines, value⟩ := Expr.leave.inj h
    exact .inr (.leave lines value)
  case conditional.conditional =>
    obtain ⟨lines, condition, yes, no⟩ := Expr.conditional.inj h
    exact .inr (.conditional lines condition yes no)
  case object.object =>
    obtain ⟨lines, properties⟩ := Expr.object.inj h
    exact .inr (.object lines ((forall₂_of_map_eq properties).imp fun _ _ => Prod.mk.inj))
  case field.field =>
    obtain ⟨lines, receiver, rfl⟩ := Expr.field.inj h
    exact .inr (.field _ lines receiver)
  case setField.setField =>
    obtain ⟨lines, receiver, rfl, value⟩ := Expr.setField.inj h
    exact .inr (.setField _ lines receiver value)
  case method.method =>
    obtain ⟨lines, receiver, rfl, arguments⟩ := Expr.method.inj h
    exact .inr (.method _ lines receiver (forall₂_of_map_eq arguments))

end Expr

def Script.flatten (p : Script) : Script := ⟨p.forms.map Expr.flatten⟩

end Lisplet
