import Lisplet.Proofs.Expr.Lines
/-!
The expressions that stand in an expression, at any depth. They are listed by a recursion that can be
run (`listed`), and what it lists is the expression and what its parts list (`listed_eq_cons`). One
list has all of them, bodies of functions included (`nodes`). Another leaves these bodies out
(`surface`): what is on it is evaluated in the scope of the whole, and a `return` on it leaves the
function around the whole.
-/
namespace Lisplet
namespace Expr

/-- The expressions right under the expression, in order. -/
def parts : Expr → List Expr
  | .literal _ _ | .access _ _ => []
  | .block _ body => body
  | .assign _ _ _ value => [value]
  | .function _ _ _ body => [body]
  | .call _ callee arguments => callee :: arguments
  | .leave _ value => [value]
  | .conditional _ condition yes no => [condition, yes, no]
  | .object _ properties => properties.map (·.2)
  | .field _ receiver _ => [receiver]
  | .setField _ receiver _ value => [receiver, value]
  | .method _ receiver _ arguments => receiver :: arguments

/-- The parts that are evaluated with the expression: all, unless it is a function. -/
def openParts : Expr → List Expr
  | .function _ _ _ _ => []
  | e => e.parts

mutual
/-- The expression and all that stands in it. It is for `bodies` to say whether what stands in the body
of a function counts. -/
def listed (bodies : Bool) : Expr → List Expr
  | .literal l v => [.literal l v]
  | .block l body => .block l body :: listedAll bodies body
  | .access l x => [.access l x]
  | .assign l mode x value => .assign l mode x value :: value.listed bodies
  | .function l name parameters body =>
    .function l name parameters body :: (if bodies then body.listed bodies else [])
  | .call l callee arguments =>
    .call l callee arguments :: (callee.listed bodies ++ listedAll bodies arguments)
  | .leave l value => .leave l value :: value.listed bodies
  | .conditional l condition yes no => .conditional l condition yes no ::
      (condition.listed bodies ++ (yes.listed bodies ++ no.listed bodies))
  | .object l properties => .object l properties :: listedProperties bodies properties
  | .field l receiver x => .field l receiver x :: receiver.listed bodies
  | .setField l receiver x value =>
    .setField l receiver x value :: (receiver.listed bodies ++ value.listed bodies)
  | .method l receiver x arguments =>
    .method l receiver x arguments :: (receiver.listed bodies ++ listedAll bodies arguments)

def listedAll (bodies : Bool) : List Expr → List Expr
  | [] => []
  | e :: es => e.listed bodies ++ listedAll bodies es

def listedProperties (bodies : Bool) : List (String × Expr) → List Expr
  | [] => []
  | (_, e) :: properties => e.listed bodies ++ listedProperties bodies properties
end

theorem listedAll_eq_flatMap (bodies : Bool) (es : List Expr) :
    listedAll bodies es = es.flatMap (listed bodies) := by
  induction es with
  | nil => rfl
  | cons e es ih => rw [listedAll, ih, List.flatMap_cons]

theorem listedProperties_eq_flatMap (bodies : Bool) (ps : List (String × Expr)) :
    listedProperties bodies ps = (ps.map (·.2)).flatMap (listed bodies) := by
  induction ps with
  | nil => rfl
  | cons p ps ih => rw [listedProperties, ih, List.map_cons, List.flatMap_cons]

theorem listed_eq_cons (bodies : Bool) (e : Expr) : e.listed bodies =
    e :: (if bodies then e.parts else e.openParts).flatMap (listed bodies) := by
  cases e with
  | function => cases bodies <;> simp [listed, parts, openParts]
  | literal | block | access | assign | call | leave | conditional | object | field | setField
  | method =>
    simp [listed, parts, openParts, listedAll_eq_flatMap, listedProperties_eq_flatMap]

/-- The expression and all that stands in it. -/
def nodes (e : Expr) : List Expr := e.listed true

/-- The expression and all that stands in it outside of the bodies of functions. -/
def surface (e : Expr) : List Expr := e.listed false

theorem nodes_eq_cons (e : Expr) : e.nodes = e :: e.parts.flatMap nodes := listed_eq_cons true e

theorem surface_eq_cons (e : Expr) : e.surface = e :: e.openParts.flatMap surface :=
  listed_eq_cons false e

theorem mem_nodes_self (e : Expr) : e ∈ e.nodes := by
  rw [nodes_eq_cons]
  exact List.mem_cons_self

/-- Induction over an expression gives the hypothesis for its parts. -/
@[elab_as_elim]
theorem inductionOnParts {motive : Expr → Prop}
    (step : ∀ e, (∀ p ∈ e.parts, motive p) → motive e) (e : Expr) : motive e := by
  induction e using Expr.induction with
  | literal | access => exact step _ (List.forall_mem_nil _)
  | block _ _ ih => exact step _ ih
  | assign _ _ _ _ ih | function _ _ _ _ ih | leave _ _ ih | field _ _ _ ih =>
    exact step _ (List.forall_mem_singleton.mpr ih)
  | call _ _ _ ih ihs | method _ _ _ _ ih ihs => exact step _ (List.forall_mem_cons.mpr ⟨ih, ihs⟩)
  | conditional _ _ _ _ ihc ihy ihn =>
    exact step _ (List.forall_mem_cons.mpr ⟨ihc, List.forall_mem_cons.mpr
      ⟨ihy, List.forall_mem_singleton.mpr ihn⟩⟩)
  | object _ _ ih => exact step _ (List.forall_mem_map.mpr ih)
  | setField _ _ _ _ ihr ihv =>
    exact step _ (List.forall_mem_cons.mpr ⟨ihr, List.forall_mem_singleton.mpr ihv⟩)

/-- What is right under a node of an expression is a node of it. -/
theorem mem_nodes_of_part {e n p : Expr} (hn : n ∈ e.nodes) (hp : p ∈ n.parts) : p ∈ e.nodes := by
  induction e using inductionOnParts with
  | step e ih =>
    rw [nodes_eq_cons] at hn ⊢
    refine List.mem_cons_of_mem _ (List.mem_flatMap.mpr ?_)
    rcases List.mem_cons.mp hn with rfl | below
    · exact ⟨p, hp, p.mem_nodes_self⟩
    · obtain ⟨q, hq, there⟩ := List.mem_flatMap.mp below
      exact ⟨q, hq, ih q hq there⟩

/-- The expression is a block. -/
def isBlock : Expr → Bool
  | .block _ _ => true
  | _ => false

def isSetField : Expr → Bool
  | .setField _ _ _ _ => true
  | _ => false

/-- Nowhere in the expression is a property of an object set. -/
def WritesNoField (e : Expr) : Prop := ∀ n ∈ e.nodes, n.isSetField = false

instance (e : Expr) : Decidable e.WritesNoField :=
  inferInstanceAs (Decidable (∀ n ∈ e.nodes, n.isSetField = false))

theorem WritesNoField.top {e : Expr} (h : e.WritesNoField) : e.isSetField = false :=
  h e (by rw [nodes_eq_cons]; exact List.mem_cons_self)

theorem WritesNoField.part {e p : Expr} (h : e.WritesNoField) (hp : p ∈ e.parts) :
    p.WritesNoField := by
  intro n hn
  refine h n ?_
  rw [nodes_eq_cons]
  exact List.mem_cons_of_mem _ (List.mem_flatMap.mpr ⟨p, hp, hn⟩)

def isLeave : Expr → Bool
  | .leave _ _ => true
  | _ => false

/-- A `return` stands in the expression outside of every function in it. -/
def ExposesReturn (e : Expr) : Prop := ∃ n ∈ e.surface, n.isLeave = true

instance (e : Expr) : Decidable e.ExposesReturn :=
  inferInstanceAs (Decidable (∃ n ∈ e.surface, n.isLeave = true))

theorem exposesReturn_iff {e : Expr} :
    e.ExposesReturn ↔ e.isLeave = true ∨ ∃ p ∈ e.openParts, p.ExposesReturn := by
  constructor
  · rintro ⟨n, hn, leave⟩
    rw [surface_eq_cons] at hn
    rcases List.mem_cons.mp hn with rfl | below
    · exact .inl leave
    · obtain ⟨p, hp, there⟩ := List.mem_flatMap.mp below
      exact .inr ⟨p, hp, n, there, leave⟩
  · rintro (leave | ⟨p, hp, n, there, leave⟩)
    · exact ⟨e, by rw [surface_eq_cons]; exact List.mem_cons_self, leave⟩
    · refine ⟨n, ?_, leave⟩
      rw [surface_eq_cons]
      exact List.mem_cons_of_mem _ (List.mem_flatMap.mpr ⟨p, hp, there⟩)

end Expr
end Lisplet
