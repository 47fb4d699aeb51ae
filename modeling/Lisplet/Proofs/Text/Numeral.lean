import Lisplet.Text.Numeral
/-!
Numerals and their values. A numeral is digits with at most a minus sign before them
(`isNumeral_iff`); it is read as the word that has its value, if there is one (`read?_eq_some_iff`);
and the canonical numeral of an integer has the value of that integer (`value_ofInt`).
-/
namespace Lisplet
namespace Numeral

theorem isDigits_toDigits (n : Nat) : isDigits (Nat.toDigits 10 n) = true := by
  have digits : ∀ c ∈ Nat.toDigits 10 n, c.isDigit = true := fun c hc =>
    Nat.isDigit_of_mem_toDigits (by decide) (by decide) hc
  simpa [isDigits] using digits

/-- A list of digits has no sign. -/
theorem magnitude_of_isDigits {ds : List Char} (h : isDigits ds = true) : magnitude ds = ds := by
  unfold magnitude
  split
  · simp [isDigits] at h
  · rfl

theorem head?_ne_minus {ds : List Char} (h : isDigits ds = true) : ds.head? ≠ some '-' := by
  intro hd
  obtain ⟨tail, rfl⟩ := List.head?_eq_some_iff.mp hd
  simp [isDigits] at h

theorem isNumeral_ofInt (v : Int) : isNumeral (ofInt v) = true := by
  have digits := isDigits_toDigits v.natAbs
  unfold isNumeral ofInt
  split
  · exact digits
  · rwa [magnitude_of_isDigits digits]

@[simp] theorem value_ofInt (v : Int) : value (ofInt v) = v := by
  have digits := isDigits_toDigits v.natAbs
  have back : Nat.ofDigitChars 10 (Nat.toDigits 10 v.natAbs) 0 = v.natAbs :=
    Nat.ofDigitChars_ten_toDigits
  by_cases neg : v < 0
  · simp only [value, ofInt, if_pos neg, magnitude, back, List.head?_cons, if_true]
    omega
  · simp only [value, ofInt, if_neg neg, magnitude_of_isDigits digits, back,
      if_neg (head?_ne_minus digits)]
    omega

/-- Digits, and at most a minus sign before them. -/
def Shaped (cs : List Char) : Prop :=
  ∃ ds, ds ≠ [] ∧ (∀ d ∈ ds, d.isDigit = true) ∧ (cs = ds ∨ cs = '-' :: ds)

theorem Shaped.ne_nil {cs : List Char} (h : Shaped cs) : cs ≠ [] := by
  obtain ⟨ds, some, -, rfl | rfl⟩ := h
  · exact some
  · exact List.cons_ne_nil _ _

theorem isDigits_iff {ds : List Char} :
    isDigits ds = true ↔ ds ≠ [] ∧ ∀ d ∈ ds, d.isDigit = true := by
  simp [isDigits]

theorem isNumeral_iff {cs : List Char} : isNumeral cs = true ↔ Shaped cs := by
  constructor
  · intro h
    have digits := isDigits_iff.mp h
    refine ⟨magnitude cs, digits.1, digits.2, ?_⟩
    unfold magnitude
    split
    · exact .inr rfl
    · exact .inl rfl
  · rintro ⟨ds, some, all, rfl | rfl⟩
    · have digits := isDigits_iff.mpr ⟨some, all⟩
      rwa [isNumeral, magnitude_of_isDigits digits]
    · exact isDigits_iff.mpr ⟨some, all⟩

theorem isNumeral_eq_false_iff {cs : List Char} : isNumeral cs = false ↔ ¬ Shaped cs := by
  rw [← isNumeral_iff, Bool.not_eq_true]

/-- A numeral is read as a word if and only if the word has its value. -/
theorem read?_eq_some_iff {cs : List Char} {v : Int64} :
    read? cs = some v ↔ v.toInt = value cs := by
  have low := v.le_toInt
  have high := v.toInt_lt
  unfold read? fits
  constructor
  · intro h
    split at h
    · next range =>
      simp only [Bool.and_eq_true, decide_eq_true_eq] at range
      rw [← Option.some.inj h]
      exact Int64.toInt_ofInt_of_le (by omega) (by omega)
    · cases h
  · intro h
    rw [← h, Int64.ofInt_toInt, if_pos]
    simp only [Bool.and_eq_true, decide_eq_true_eq]
    omega

end Numeral
end Lisplet
