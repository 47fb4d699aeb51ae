import Lisplet.Proofs.Expr.RoundTrip
import Lisplet.Proofs.Session.Trail
/-!
Lines never influence evaluation. Lines are kept for error messages: apart from them, programs that
are the same but for lines run alike, form by form, and leave the same heap. What is the same but for
lines becomes equal once all lines are set to 0. For heaps this concerns the functions in them, for
endings the line of the error; values and printed texts have no lines and are the same as they are.
-/
namespace Lisplet

variable {ν σ α : Type}

def Closure.unlined (c : Closure) : Closure := { c with line := 0, body := c.body.unlined }

def Kind.unlined : Kind ν → Kind ν
  | .function name (.closure c) => .function name (.closure c.unlined)
  | kind => kind

def Object.unlined (o : Object ν) : Object ν := { o with kind := o.kind.unlined }

/-- The heap with every line in its functions set to 0. -/
def Heap.unlined (h : Heap ν) : Heap ν := ⟨h.objects.map Object.unlined⟩

/-- The ending with the line of its error set to 0. -/
def Ending.unlined : Ending → Ending
  | .failed e => .failed { e with line := 0 }
  | ending => ending

def Session.unlined (s : Session σ) : Session σ :=
  { s with world := { s.world with heap := s.world.heap.unlined } }

/-- What was given and the session that was left, with every line set to 0. -/
def outcomeUnlined (x : Except Ending α × Session σ) : Except Ending α × Session σ :=
  (x.1.mapError Ending.unlined, x.2.unlined)

/-- The script comes to an end of its own, in a value or in an error. -/
def Script.Finishes [Sink σ] (s : Script) (sink : σ) : Prop :=
  ∃ depth, (s.run depth sink).1 ≠ .error .exhausted

/-- In new sessions the scripts run alike but for lines, wherever their texts are printed. -/
structure Script.RunsLike (s t : Script) : Prop where
  finishes : ∀ {σ : Type} [Sink σ] (sink : σ), s.Finishes sink ↔ t.Finishes sink
  /-- Form by form they give the same, print the same and leave the same heap, and they stop at the
  same form if they do. -/
  steps : ∀ {σ : Type} [Sink σ] (sink : σ) (depth : Nat),
    ((Session.start sink).trail depth s.forms).map outcomeUnlined =
      ((Session.start sink).trail depth t.forms).map outcomeUnlined
  ending : ∀ {σ : Type} [Sink σ] (sink : σ) (depth : Nat),
    outcomeUnlined (s.run depth sink) = outcomeUnlined (t.run depth sink)

namespace Expr

theorem forall₂_unlined {es es' : List Expr} (h : unlinedAll es = unlinedAll es') :
    List.Forall₂ (fun e e' => e.unlined = e'.unlined) es es' := by
  rw [unlinedAll_eq_map, unlinedAll_eq_map] at h
  exact forall₂_of_map_eq h

theorem forall₂_unlinedProperties {ps ps' : List (String × Expr)}
    (h : unlinedProperties ps = unlinedProperties ps') :
    List.Forall₂ (fun p p' => p.1 = p'.1 ∧ p.2.unlined = p'.2.unlined) ps ps' := by
  rw [unlinedProperties_eq_map, unlinedProperties_eq_map] at h
  exact (forall₂_of_map_eq h).imp fun p p' => Prod.mk.inj

/-- Expressions that are the same but for lines have the same form. -/
theorem matches_of_unlined_eq {e e' : Expr} (h : e.unlined = e'.unlined) :
    e.Matches (fun _ _ => True) (fun a b => a.unlined = b.unlined) e' := by
  cases e <;> cases e' <;> simp only [unlined, reduceCtorEq] at h
  case literal.literal =>
    cases h
    exact .literal _ trivial
  case block.block =>
    exact .block trivial (forall₂_unlined (Expr.block.inj h).2)
  case access.access =>
    cases h
    exact .access _ trivial
  case assign.assign =>
    obtain ⟨-, rfl, rfl, value⟩ := Expr.assign.inj h
    exact .assign _ _ trivial value
  case function.function =>
    obtain ⟨-, rfl, rfl, body⟩ := Expr.function.inj h
    exact .function _ _ trivial body
  case call.call =>
    obtain ⟨-, callee, arguments⟩ := Expr.call.inj h
    exact .call trivial callee (forall₂_unlined arguments)
  case leave.leave => exact .leave trivial (Expr.leave.inj h).2
  case conditional.conditional =>
    obtain ⟨-, condition, yes, no⟩ := Expr.conditional.inj h
    exact .conditional trivial condition yes no
  case object.object => exact .object trivial (forall₂_unlinedProperties (Expr.object.inj h).2)
  case field.field =>
    obtain ⟨-, receiver, rfl⟩ := Expr.field.inj h
    exact .field _ trivial receiver
  case setField.setField =>
    obtain ⟨-, receiver, rfl, value⟩ := Expr.setField.inj h
    exact .setField _ trivial receiver value
  case method.method =>
    obtain ⟨-, receiver, rfl, arguments⟩ := Expr.method.inj h
    exact .method _ trivial receiver (forall₂_unlined arguments)

end Expr

/-- Alike is what is the same but for lines. -/
def Likeness.butForLines (σ : Type) [Sink σ] : Likeness σ σ :=
  .ofCode σ (fun _ _ => True) (fun e e' => e.unlined = e'.unlined) Expr.matches_of_unlined_eq

namespace Likeness

variable [Sink σ]

theorem Objects.unlined_eq {o o' : Object ν} (h : (butForLines σ).Objects o o') :
    o.unlined = o'.unlined := by
  obtain ⟨kind, slots, parent⟩ := o
  obtain ⟨kind', slots', parent'⟩ := o'
  obtain ⟨kinds, rfl, rfl⟩ := h
  cases kinds with
  | environment | plain | native => rfl
  | closure name closures =>
    simp [Object.unlined, Kind.unlined, Closure.unlined, closures.parameters, closures.scope,
      show _ = _ from closures.body]

theorem Heaps.unlined_eq {h h' : Heap ν} (heaps : (butForLines σ).Heaps h h') :
    h.unlined = h'.unlined := by
  refine congrArg Heap.mk (Array.ext_getElem? fun i => ?_)
  rw [Array.getElem?_map, Array.getElem?_map]
  have both := heaps.get? ⟨i⟩
  simp only [Heap.get?] at both
  rcases both with ⟨ho, ho'⟩ | ⟨o, o', ho, ho', alike⟩
  · rw [ho, ho']
  · rw [ho, ho', Option.map_some, Option.map_some, alike.unlined_eq]

theorem Sessions.unlined_eq {s s' : Session σ} (sessions : (butForLines σ).Sessions s s') :
    s.unlined = s'.unlined := by
  obtain ⟨global, heap, sink⟩ := s
  obtain ⟨global', heap', sink'⟩ := s'
  obtain ⟨rfl, heaps, rfl⟩ := sessions
  simp only [Session.unlined, heaps.unlined_eq]

theorem Results.unlined_eq {r r' : Except Ending α} (results : (butForLines σ).Results Eq r r') :
    r.mapError Ending.unlined = r'.mapError Ending.unlined := by
  cases results with
  | ok same => rw [same]
  | error endings => cases endings <;> rfl

end Likeness

theorem Session.outcomeUnlined_conclude (s : Session σ)
    (steps : List (Except Ending Value × Session σ)) :
    outcomeUnlined (s.conclude steps) = s.unlined.conclude (steps.map outcomeUnlined) := by
  simp only [conclude, List.getLast?_map]
  cases steps.getLast? with
  | none => rfl
  | some x =>
    rcases x with ⟨_ | v, s'⟩ <;> rfl

theorem mapError_unlined_eq_exhausted {r : Except Ending α} :
    r.mapError Ending.unlined = .error .exhausted ↔ r = .error .exhausted := by
  rcases r with (_ | _ | _ | _) | _ <;> simp [Except.mapError, Ending.unlined]

namespace Script

theorem RunsLike.of_unlined_eq {s t : Script} (same : s.unlined = t.unlined) : s.RunsLike t := by
  have forms := Expr.forall₂_unlined (congrArg Script.forms same)
  have steps : ∀ {σ : Type} [Sink σ] (sink : σ) (depth : Nat),
      ((Session.start sink).trail depth s.forms).map outcomeUnlined =
        ((Session.start sink).trail depth t.forms).map outcomeUnlined := by
    intro σ _ sink depth
    have started : (Likeness.butForLines σ).Sessions (Session.start sink) (Session.start sink) :=
      Session.start_alike rfl
    have alike := Session.trail_alike started depth forms
    rw [← List.forall₂_eq_eq_eq, List.forall₂_map_left_iff, List.forall₂_map_right_iff]
    exact alike.imp fun x y h => Prod.ext h.1.unlined_eq h.2.unlined_eq
  have ending : ∀ {σ : Type} [Sink σ] (sink : σ) (depth : Nat),
      outcomeUnlined (s.run depth sink) = outcomeUnlined (t.run depth sink) := by
    intro σ _ sink depth
    simp only [run, Session.evaluateAll_eq_conclude, Session.outcomeUnlined_conclude, steps]
  refine ⟨fun sink => exists_congr fun depth => not_congr ?_, steps, ending⟩
  have results : (s.run depth sink).1.mapError Ending.unlined =
      (t.run depth sink).1.mapError Ending.unlined := congrArg Prod.fst (ending sink depth)
  rw [← mapError_unlined_eq_exhausted, results, mapError_unlined_eq_exhausted]

end Script

/-- Lines never influence evaluation: scripts that are the same but for lines run alike but for
lines. In particular a well-formed script, and so every script that was read, runs like the one that
is read back from its text. -/
theorem runsLike_of_unlined_eq :
    (∀ s t : Script, s.unlined = t.unlined → s.RunsLike t) ∧
    (∀ s : Script, s.wellFormed = true → ∃ t, Script.ofText s.text = .ok t ∧ s.RunsLike t) ∧
    ∀ (source : String) (s : Script), Script.ofText source = .ok s →
      ∃ t, Script.ofText s.text = .ok t ∧ s.RunsLike t := by
  have written : ∀ s : Script, s.wellFormed = true →
      ∃ t, Script.ofText s.text = .ok t ∧ s.RunsLike t := by
    intro s formed
    obtain ⟨t, read, same⟩ := Script.ofText_text formed
    exact ⟨t, read, .of_unlined_eq same.symm⟩
  exact ⟨fun s t same => .of_unlined_eq same, written,
    fun source s read => written s (Script.wellFormed_of_ofText read)⟩

/-- A call with too few arguments fails on the line of the function, which is line 1 of a script that
is all on one line and line 2 of what is read back from its text. -/
theorem runsLike_arity_error : ∃ s t : Script,
    Script.ofText "(print 1) (fun f (x) x) (f)" = .ok s ∧ s.wellFormed = true ∧
      Script.ofText s.text = .ok t ∧ s.unlined = t.unlined ∧ s.RunsLike t ∧
      (s.run 9 Transcript.empty).1 = .error (.failed ⟨.arityMismatch "f" 1 0, 1⟩) ∧
      (t.run 9 Transcript.empty).1 = .error (.failed ⟨.arityMismatch "f" 1 0, 2⟩) := by
  have read : Script.ofText "(print 1) (fun f (x) x) (f)" = .ok ⟨[
      .call 1 (.access 1 "print") [.literal 1 (.integer 1)],
      .function 1 (some "f") ["x"] (.block 1 [.access 1 "x"]),
      .call 1 (.access 1 "f") []]⟩ := by with_unfolding_all rfl
  obtain ⟨t, back, like⟩ := runsLike_of_unlined_eq.2.2 _ _ read
  obtain rfl : Script.mk [
      .call 1 (.access 1 "print") [.literal 1 (.integer 1)],
      .function 2 (some "f") ["x"] (.block 2 [.access 2 "x"]),
      .call 3 (.access 3 "f") []] = t := by
    refine Except.ok.inj (Eq.trans ?_ back)
    with_unfolding_all rfl
  exact ⟨_, _, read, rfl, back, rfl, like, rfl, rfl⟩

end Lisplet
