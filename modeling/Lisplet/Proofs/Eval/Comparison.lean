import Lisplet.Eval.Operator
import Lisplet.Proofs.Text.Utf8
/-!
Comparison and equality of values. Integers are ordered among themselves and so are texts. Where two
values can be compared, the comparison is a total order, in which only equal values tie, and each
operator is a question about its outcome (`Operator.yields_comparison`). So the operators do not
contradict each other (`comparison_coherent`). The order of texts is that of their bytes, which is
that of their code points.
-/
namespace Lisplet

namespace Value

/-- Both are integers, or both are texts. -/
inductive Comparable : Value → Value → Prop where
  | integers (x y : Int64) : Comparable (.integer x) (.integer y)
  | strings (s t : String) : Comparable (.string s) (.string t)

variable {a b c : Value} {o o' : Ordering}

theorem Comparable.exists_compare (h : a.Comparable b) : ∃ o, a.compare b = .ok o := by
  cases h with
  | integers x y => exact ⟨Ord.compare x y, rfl⟩
  | strings s t => exact ⟨Ord.compare s t, rfl⟩

theorem comparable_of_compare (h : a.compare b = .ok o) : a.Comparable b := by
  cases a with
  | integer x =>
    cases b with
    | integer y => exact .integers x y
    | undefined | string | object => cases h
  | string s =>
    cases b with
    | string t => exact .strings s t
    | undefined | integer | object => cases h
  | undefined | object => cases h

theorem compare_swap (h : a.compare b = .ok o) : b.compare a = .ok o.swap := by
  cases comparable_of_compare h with
  | integers | strings =>
    cases h
    exact congrArg Except.ok Std.OrientedCmp.eq_swap

/-- Only equal values tie. -/
theorem compare_tie_iff (h : a.compare b = .ok o) : o = .eq ↔ a = b := by
  cases comparable_of_compare h with
  | integers | strings =>
    cases h
    simp only [Std.LawfulEqCmp.compare_eq_iff_eq, integer.injEq, string.injEq]

theorem compare_isLE_trans (h : a.compare b = .ok o) (h' : b.compare c = .ok o')
    (first : o.isLE = true) (second : o'.isLE = true) :
    ∃ o'', a.compare c = .ok o'' ∧ o''.isLE = true := by
  -- The value in the middle is of one kind, so the outer two are of the same kind.
  cases comparable_of_compare h with
  | integers | strings =>
    cases comparable_of_compare h'
    cases h
    cases h'
    exact ⟨_, rfl, Std.TransCmp.isLE_trans first second⟩

theorem compare_integers_lt_iff (x y : Int64) :
    (integer x).compare (integer y) = .ok .lt ↔ x.toInt < y.toInt := by
  rw [← Int64.lt_iff_toInt_lt, compare, Except.ok.injEq]
  exact compareOfLessAndEq_eq_lt

theorem compare_strings_lt_iff (s t : String) :
    (string s).compare (string t) = .ok .lt ↔ utf8Bytes s < utf8Bytes t := by
  rw [utf8Bytes_lt_iff, compare, Except.ok.injEq]
  exact compareOfLessAndEq_eq_lt

end Value

namespace Operator

/-- The operator gives the truth value. -/
def Yields (op : Operator) (a b : Value) (r : Bool) : Prop := op.apply a b = .ok (.ofBool r)

variable {a b : Value} {o : Ordering}

theorem Yields.unique {op : Operator} {r r' : Bool} (h : op.Yields a b r) (h' : op.Yields a b r') :
    r = r' := by
  have same : Value.ofBool r = Value.ofBool r' := Except.ok.inj (h.symm.trans h')
  cases r <;> cases r' <;> first | rfl | exact absurd same (by decide)

theorem yields_equality (a b : Value) (negated : Bool) :
    (equality negated).Yields a b (decide (a = b) != negated) := rfl

theorem yields_equal_iff : (equality false).Yields a b true ↔ a = b := by
  constructor
  · intro h
    have outcome := h.unique (yields_equality a b false)
    simpa using outcome
  · rintro rfl
    simpa using yields_equality a a false

/-- A comparison operator asks for the outcome of the comparison. -/
theorem yields_comparison (h : a.compare b = .ok o) (op : Comparison) :
    (comparison op).Yields a b (op.holds o) := by
  rw [Yields, apply, Comparison.apply, h]
  rfl

/-- Where values can be compared, equality too asks for the outcome of the comparison. -/
theorem yields_tie (h : a.compare b = .ok o) : (equality false).Yields a b (o == .eq) := by
  have tie : (o == .eq) = decide (a = b) := by
    rw [beq_eq_decide, decide_eq_decide]
    exact Value.compare_tie_iff h
  rw [tie, ← Bool.bne_false (decide (a = b))]
  exact yields_equality a b false

end Operator

open Operator

/-- Comparison and equality are coherent. Equality is an equivalence and inequality its negation.
Just integers and integers, and texts and texts, can be compared; this is a total order, whose ties are
the equal values. So exactly one of less, equal and greater is the case, and the other two comparisons
are the negations of the opposite ones. Integers are in the order of numbers, and texts in the
lexicographic order of their bytes, which is that of their code points. -/
theorem comparison_coherent :
    (Equivalence fun a b => (Operator.equality false).Yields a b true) ∧
    (∀ a b, ∃ equal, (Operator.equality false).Yields a b equal ∧
      (Operator.equality true).Yields a b !equal) ∧
    (∀ a b : Value, (∃ o, a.compare b = .ok o) ↔ a.Comparable b) ∧
    (∀ (a b : Value) (o : Ordering), a.compare b = .ok o → b.compare a = .ok o.swap ∧
      (o = .eq ↔ (Operator.equality false).Yields a b true)) ∧
    (∀ (a b c : Value) (o o' : Ordering), a.compare b = .ok o → b.compare c = .ok o' →
      o.isLE = true → o'.isLE = true → ∃ o'', a.compare c = .ok o'' ∧ o''.isLE = true) ∧
    (∀ a b : Value, a.Comparable b → ∃ less equal greater,
      (Operator.comparison .less).Yields a b less ∧ (Operator.equality false).Yields a b equal ∧
      (Operator.comparison .greater).Yields a b greater ∧ [less, equal, greater].count true = 1 ∧
      (Operator.comparison .lessEqual).Yields a b !greater ∧
      (Operator.comparison .greaterEqual).Yields a b !less) ∧
    (∀ x y, (Value.integer x).compare (.integer y) = .ok .lt ↔ x.toInt < y.toInt) ∧
    (∀ s t, ((Value.string s).compare (.string t) = .ok .lt ↔ utf8Bytes s < utf8Bytes t) ∧
      (utf8Bytes s < utf8Bytes t ↔ codePoints s < codePoints t)) := by
  refine ⟨⟨?_, ?_, ?_⟩, ?_, ?_, ?_, ?_, ?_, Value.compare_integers_lt_iff, ?_⟩
  · intro a
    exact yields_equal_iff.mpr rfl
  · intro a b h
    exact yields_equal_iff.mpr (yields_equal_iff.mp h).symm
  · intro a b c h h'
    exact yields_equal_iff.mpr ((yields_equal_iff.mp h).trans (yields_equal_iff.mp h'))
  · intro a b
    refine ⟨decide (a = b) != false, yields_equality a b false, ?_⟩
    rw [Bool.bne_false, ← Bool.bne_true]
    exact yields_equality a b true
  · intro a b
    exact ⟨fun ⟨o, h⟩ => Value.comparable_of_compare h, fun h => h.exists_compare⟩
  · intro a b o h
    exact ⟨Value.compare_swap h, (Value.compare_tie_iff h).trans yields_equal_iff.symm⟩
  · intro a b c o o' h h'
    exact Value.compare_isLE_trans h h'
  · intro a b comparable
    obtain ⟨o, h⟩ := comparable.exists_compare
    refine ⟨o == .lt, o == .eq, o == .gt, yields_comparison h .less, yields_tie h,
      yields_comparison h .greater, ?_, yields_comparison h .lessEqual,
      yields_comparison h .greaterEqual⟩
    cases o <;> rfl
  · intro s t
    exact ⟨Value.compare_strings_lt_iff s t, utf8Bytes_lt_iff.trans codePoints_lt_iff.symm⟩

/-- Texts of one, three and four bytes, the last two of which are the other way round in 16-bit
units. -/
theorem comparison_coherent_across_widths :
    (∃ o, (Value.string "z").compare (.string "𐀀") = .ok o ∧ o.isLE = true) ∧
    (Value.string "𐀀").compare (.string "\uFFFD") = .ok .gt ∧
    ∃ less equal greater, (Operator.comparison .less).Yields (.string "z") (.string "𐀀") less ∧
      (Operator.equality false).Yields (.string "z") (.string "𐀀") equal ∧
      (Operator.comparison .greater).Yields (.string "z") (.string "𐀀") greater ∧
      [less, equal, greater].count true = 1 := by
  obtain ⟨-, -, -, swap, trans, one, -, texts⟩ := comparison_coherent
  have first : (Value.string "z").compare (.string "\uFFFD") = .ok .lt :=
    (texts _ _).1.mpr ((texts _ _).2.mpr (by decide))
  have second : (Value.string "\uFFFD").compare (.string "𐀀") = .ok .lt :=
    (texts _ _).1.mpr ((texts _ _).2.mpr (by decide))
  obtain ⟨less, equal, greater, isLess, isEqual, isGreater, single, -⟩ := one _ _ (.strings "z" "𐀀")
  exact ⟨trans _ _ _ _ _ first second rfl rfl, (swap _ _ _ second).1,
    less, equal, greater, isLess, isEqual, isGreater, single⟩

end Lisplet
