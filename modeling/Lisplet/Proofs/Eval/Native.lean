import Mathlib.Data.List.Basic
import Lisplet.Eval.Native
import Lisplet.Proofs.Eval.Realm
/-!
The builtins in a sound heap. `print` finds a text for every value, so it never gets stuck; an
operator gives no object, and what it complains about are its operands.
-/
namespace Lisplet

variable {ν α β : Type} {c : Realm}

theorem exists_mapM_eq_some {f : α → Option β} {as : List α} (h : ∀ a ∈ as, ∃ b, f a = some b) :
    ∃ bs, as.mapM f = some bs := by
  induction as with
  | nil => exact ⟨[], rfl⟩
  | cons a as ih =>
    obtain ⟨b, hb⟩ := h a (by simp)
    obtain ⟨bs, hbs⟩ := ih fun a ha => h a (List.mem_cons_of_mem _ ha)
    exact ⟨b :: bs, by simp [List.mapM_cons, hb, hbs]⟩

theorem mapM_congr {f g : α → Option β} {as : List α} (h : ∀ a ∈ as, f a = g a) :
    as.mapM f = as.mapM g := by
  induction as with
  | nil => rfl
  | cons a as ih =>
    rw [List.mapM_cons, List.mapM_cons, h a (by simp), ih fun a ha => h a (List.mem_cons_of_mem _ ha)]

theorem exists_propertyText? {h : Heap ν} {v : Value} (held : c.Allows h v) :
    ∃ text, h.propertyText? v = some text := by
  cases v with
  | object r =>
    obtain ⟨o, ho, -⟩ := held
    exact ⟨o.kind.short, by simp [Heap.propertyText?, Heap.short?, ho]⟩
  | undefined | integer | string => exact ⟨_, rfl⟩

/-- Where no reference is dangling every value has a text. -/
theorem exists_text? {h : Heap ν} (sound : c.Sound h) {v : Value} (held : c.Allows h v) :
    ∃ text, h.text? v = some text := by
  cases v with
  | object r =>
    obtain ⟨⟨kind, slots, parent⟩, ho, -⟩ := held
    have values := (sound.objects r _ ho).values
    obtain ⟨texts, parts⟩ : ∃ texts, (slots.entries.mapM fun entry =>
        (h.propertyText? entry.2).bind fun text => some (entry.1 ++ ": " ++ text)) = some texts := by
      refine exists_mapM_eq_some fun entry hentry => ?_
      obtain ⟨text, ht⟩ := exists_propertyText? (values entry hentry).1
      exact ⟨entry.1 ++ ": " ++ text, by simp [ht]⟩
    cases kind with
    | plain => simp [Heap.text?, Heap.objectText?, ho, parts]
    | environment | function => simp [Heap.text?, Heap.objectText?, ho]
  | undefined | integer | string => exact ⟨_, rfl⟩

/-- The text of a known value shows nothing that is not known. -/
theorem text?_eq_of_known {h h' : Heap ν} (sound : c.Sound h)
    (same : ∀ r, c.known r → h'.get? r = h.get? r) {v : Value} (held : c.Holds h v) :
    h'.text? v = h.text? v := by
  cases v with
  | object r =>
    obtain ⟨⟨⟨kind, slots, parent⟩, ho, -⟩, known⟩ := held
    have ho' := (same r known).trans ho
    have inside : ∀ entry ∈ slots.entries, h'.propertyText? entry.2 = h.propertyText? entry.2 := by
      rintro ⟨name, v⟩ entry
      have knows := ((sound.objects r _ ho).values _ entry).2 known
      cases v with
      | object q => simp only [Heap.propertyText?, Heap.short?, same q knows]
      | undefined | integer | string => rfl
    cases kind with
    | plain =>
      have parts := mapM_congr (f := fun entry : String × Value =>
          (h'.propertyText? entry.2).bind fun text => some (entry.1 ++ ": " ++ text))
        fun entry hentry => by rw [inside entry hentry]
      simp [Heap.text?, Heap.objectText?, ho, ho', parts]
    | environment | function => simp [Heap.text?, Heap.objectText?, ho, ho']
  | undefined | integer | string => rfl

/-- An operator gives no object, and what it complains about are its operands. -/
def Answers (a b : Value) : Except Fault Value → Prop
  | .ok v => ∀ r, v ≠ .object r
  | .error fault => ∀ v ∈ fault.values, v ∈ [a, b]

/-- On integers only a division can go wrong. -/
theorem Arithmetic.onWords_error {op : Arithmetic} {a b : Int64} {fault : Fault}
    (h : op.onWords a b = .error fault) : fault = .divisionByZero := by
  cases op with
  | add | subtract | multiply => cases h
  | divide | remainder =>
    simp only [onWords] at h
    split at h <;> cases h
    rfl

theorem Arithmetic.answers (op : Arithmetic) (a b : Value) : Answers a b (op.apply a b) := by
  unfold Arithmetic.apply
  split
  · next a b =>
    cases h : op.onWords a b with
    | ok v => simp [Answers, Except.map]
    | error f =>
      obtain rfl := onWords_error h
      simp [Answers, Except.map, Fault.values]
  · exact fun v hv => hv

theorem Comparison.answers (op : Comparison) (a b : Value) : Answers a b (op.apply a b) := by
  unfold Comparison.apply Value.compare
  split
  · simp [Answers, Except.map, Value.ofBool]
  · simp [Answers, Except.map, Value.ofBool]
  · exact fun v hv => hv

theorem Operator.answers (op : Operator) (a b : Value) : Answers a b (op.apply a b) := by
  cases op with
  | arithmetic op => exact op.answers a b
  | equality negated => simp [Operator.apply, Answers, Value.ofBool]
  | comparison op => exact op.answers a b

/-- What an operator complains about is so. -/
theorem Operator.fault_of_apply {op : Operator} {a b : Value} {fault : Fault}
    (h : op.apply a b = .error fault) :
    (fault = .nonNumerics a b ∧ ¬ ∃ x y, a = .integer x ∧ b = .integer y) ∨
    (fault = .nonComparable a b ∧ (¬ ∃ x y, a = .integer x ∧ b = .integer y) ∧
      ¬ ∃ x y, a = .string x ∧ b = .string y) ∨
    fault = .divisionByZero := by
  cases op with
  | arithmetic op =>
    simp only [Operator.apply, Arithmetic.apply] at h
    split at h
    · next x y =>
      cases words : op.onWords x y with
      | ok v =>
        rw [words] at h
        cases h
      | error f =>
        rw [words] at h
        cases h
        exact .inr (.inr (Arithmetic.onWords_error words))
    · next integers =>
      cases h
      refine .inl ⟨rfl, ?_⟩
      rintro ⟨x, y, rfl, rfl⟩
      exact integers x y rfl rfl
  | equality => cases h
  | comparison op =>
    simp only [Operator.apply, Comparison.apply, Value.compare] at h
    split at h
    · cases h
    · cases h
    · next integers strings =>
      cases h
      refine .inr (.inl ⟨rfl, ?_, ?_⟩)
      · rintro ⟨x, y, rfl, rfl⟩
        exact integers x y rfl rfl
      · rintro ⟨x, y, rfl, rfl⟩
        exact strings x y rfl rfl

/-- An operator gets to work on two arguments, and on no other number of them. -/
theorem Builtin.call_operator (op : Operator) (inv : Invocation) (h : Heap ν) :
    (∃ x y, inv.arguments = [x, y] ∧ call (.operator op) inv h =
      { result := (op.apply x y).mapError fun fault => .failed ⟨fault, inv.line⟩, heap := h }) ∨
    inv.arguments.length ≠ 2 ∧ call (.operator op) inv h =
      { result := .error (.failed ⟨.arityMismatch op.name 2 inv.arguments.length, inv.line⟩),
        heap := h } := by
  by_cases count : inv.arguments.length = 2
  · obtain ⟨x, y, two⟩ := List.length_eq_two.mp count
    refine .inl ⟨x, y, two, ?_⟩
    simp [call, miscount?, arity?, perform, operate, two]
  · refine .inr ⟨count, ?_⟩
    simp [call, miscount?, arity?, count, name]

theorem Builtin.operator_leaves {h : Heap ν} {inv : Invocation}
    (held : ∀ v ∈ inv.arguments, c.Holds h v) (op : Operator) :
    c.Leaves h (c.Holds h) (call (.operator op) inv h).result := by
  rcases call_operator op inv h with ⟨x, y, two, reply⟩ | ⟨-, reply⟩
  · rw [reply]
    rw [two] at held
    have answers := op.answers x y
    cases h : op.apply x y with
    | ok v =>
      rw [h] at answers
      cases v with
      | object r => exact absurd rfl (answers r)
      | undefined | integer | string => exact ⟨trivial, trivial⟩
    | error fault =>
      rw [h] at answers
      exact fun v hv => held v (answers v hv)
  · rw [reply]
    simp [Realm.Leaves, Realm.Ends, Fault.values]

end Lisplet
