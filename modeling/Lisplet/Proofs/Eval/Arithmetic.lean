import Mathlib.Data.Int.ModEq
import Lisplet.Eval.Operator
/-!
Arithmetic of words and arithmetic of integers. A word is the one integer of its range that is
congruent to what it stands for (`Wraps`), and this is kept by all operators, since a congruence is
kept by sums, differences and products, and quotients and remainders of words are again in the range,
but for one quotient. So each operator is that of the integers, reduced once at the end
(`Arithmetic.wraps_onWords`), and what holds of integers up to multiples of 2⁶⁴ holds of words, such as
that quotient and remainder give the dividend back (`div_mul_add_mod`).
-/
namespace Lisplet

/-- The word is the integer, reduced modulo 2⁶⁴ into the range of words. -/
structure Wraps (n : Int) (w : Int64) : Prop where
  lower : -9223372036854775808 ≤ w.toInt
  upper : w.toInt < 9223372036854775808
  congruent : w.toInt ≡ n [ZMOD 18446744073709551616]

variable {m n : Int} {v w x y : Int64}

theorem wraps_iff_toInt : Wraps n w ↔ w.toInt = n.bmod 18446744073709551616 := by
  constructor
  · intro h
    have residues : w.toInt % (18446744073709551616 : Nat) = n % (18446744073709551616 : Nat) :=
      h.congruent
    rw [← Int.emod_bmod, ← residues, Int.emod_bmod, Int64.toInt_bmod]
  · intro h
    refine ⟨w.le_toInt, w.toInt_lt, ?_⟩
    rw [h]
    exact Int.bmod_emod

/-- An integer is reduced to one word only. -/
theorem Wraps.unique (h : Wraps n v) (h' : Wraps n w) : v = w := by
  rw [wraps_iff_toInt] at h h'
  exact Int64.toInt_inj.mp (h.trans h'.symm)

theorem wraps_toInt (w : Int64) : Wraps w.toInt w := ⟨w.le_toInt, w.toInt_lt, rfl⟩

theorem Wraps.of_congruent (h : Wraps m w) (same : m ≡ n [ZMOD 18446744073709551616]) : Wraps n w :=
  ⟨h.lower, h.upper, h.congruent.trans same⟩

theorem Wraps.add (hv : Wraps m v) (hw : Wraps n w) : Wraps (m + n) (v + w) :=
  (wraps_iff_toInt.mpr (Int64.toInt_add v w)).of_congruent (hv.congruent.add hw.congruent)

theorem Wraps.sub (hv : Wraps m v) (hw : Wraps n w) : Wraps (m - n) (v - w) :=
  (wraps_iff_toInt.mpr (Int64.toInt_sub v w)).of_congruent (hv.congruent.sub hw.congruent)

theorem Wraps.mul (hv : Wraps m v) (hw : Wraps n w) : Wraps (m * n) (v * w) :=
  (wraps_iff_toInt.mpr (Int64.toInt_mul v w)).of_congruent (hv.congruent.mul hw.congruent)

/-! Quotients and remainders depend on the dividend itself, not only on what it is congruent to. -/

theorem wraps_div (x y : Int64) : Wraps (x.toInt.tdiv y.toInt) (x / y) :=
  wraps_iff_toInt.mpr (Int64.toInt_div x y)

theorem wraps_mod (x y : Int64) : Wraps (x.toInt.tmod y.toInt) (x % y) := by
  rw [← Int64.toInt_mod]
  exact wraps_toInt (x % y)

/-- A single quotient is out of range. -/
theorem toInt_div_eq_iff : (x / y).toInt = x.toInt.tdiv y.toInt ↔
    ¬(x.toInt = -9223372036854775808 ∧ y.toInt = -1) := by
  constructor
  · rintro same ⟨hx, hy⟩
    have range := (x / y).toInt_lt
    rw [same, hx, hy] at range
    revert range
    decide
  · intro other
    by_cases hx : x = Int64.minValue
    · refine Int64.toInt_div_of_ne_right x y ?_
      rintro rfl
      subst hx
      exact other ⟨rfl, rfl⟩
    · exact Int64.toInt_div_of_ne_left x y hx

theorem div_mul_add_mod (x y : Int64) : x / y * y + x % y = x := by
  have parts : Wraps (x.toInt.tdiv y.toInt * y.toInt + x.toInt.tmod y.toInt) (x / y * y + x % y) :=
    ((wraps_div x y).mul (wraps_toInt y)).add (wraps_mod x y)
  rw [Int.mul_comm, Int.mul_tdiv_add_tmod] at parts
  exact parts.unique (wraps_toInt x)

theorem toInt_ne_zero (hy : y ≠ 0) : y.toInt ≠ 0 := by
  intro zero
  exact hy (Int64.toInt_inj.mp zero)

theorem natAbs_mod_lt (x : Int64) (hy : y ≠ 0) : (x % y).toInt.natAbs < y.toInt.natAbs := by
  rw [Int64.toInt_mod, Int.natAbs_tmod]
  exact Nat.mod_lt _ (Int.natAbs_pos.mpr (toInt_ne_zero hy))

theorem sign_mod (x y : Int64) :
    (x % y).toInt = 0 ∨ (x % y).toInt.sign = x.toInt.sign := by
  rw [Int64.toInt_mod, Int.sign_tmod]
  by_cases divides : y.toInt ∣ x.toInt
  · exact .inl (Int.tmod_eq_zero_of_dvd divides)
  · exact .inr (if_neg divides)

namespace Arithmetic

/-- The operator on all integers. A quotient is truncated toward zero. -/
def onIntegers : Arithmetic → Int → Int → Int
  | .add, m, n => m + n
  | .subtract, m, n => m - n
  | .multiply, m, n => m * n
  | .divide, m, n => m.tdiv n
  | .remainder, m, n => m.tmod n

/-- The second operand is a divisor. -/
def divides : Arithmetic → Bool
  | .divide | .remainder => true
  | .add | .subtract | .multiply => false

variable {op : Arithmetic}

theorem onWords_of_zero (divides : op.divides = true) (x : Int64) :
    op.onWords x 0 = .error .divisionByZero := by
  cases op with
  | divide | remainder => rfl
  | add | subtract | multiply => cases divides

/-- On words an operator gives what it gives on integers, reduced. -/
theorem wraps_onWords (x : Int64) (possible : ¬(op.divides = true ∧ y = 0)) :
    ∃ r, op.onWords x y = .ok r ∧ Wraps (op.onIntegers x.toInt y.toInt) r := by
  cases op with
  | add => exact ⟨x + y, rfl, (wraps_toInt x).add (wraps_toInt y)⟩
  | subtract => exact ⟨x - y, rfl, (wraps_toInt x).sub (wraps_toInt y)⟩
  | multiply => exact ⟨x * y, rfl, (wraps_toInt x).mul (wraps_toInt y)⟩
  | divide => exact ⟨x / y, if_neg fun zero => possible ⟨rfl, zero⟩, wraps_div x y⟩
  | remainder => exact ⟨x % y, if_neg fun zero => possible ⟨rfl, zero⟩, wraps_mod x y⟩

theorem apply_of_onWords {r : Int64} (h : op.onWords x y = .ok r) :
    op.apply (.integer x) (.integer y) = .ok (.integer r) := by
  rw [apply, h]
  rfl

/-- Only integers are operands. -/
theorem apply_of_not_integers {a b : Value} (other : ¬∃ x y, a = .integer x ∧ b = .integer y) :
    op.apply a b = .error (.nonNumerics a b) := by
  cases a with
  | undefined | string | object => rfl
  | integer x =>
    cases b with
    | undefined | string | object => rfl
    | integer y => exact absurd ⟨x, y, rfl, rfl⟩ other

end Arithmetic

/-- Arithmetic is that of the integers modulo 2⁶⁴. Operands that are not both integers are refused, and
so is the divisor 0; otherwise there is a result, and it is that of the integers, reduced to the range
of words. One quotient only is changed by that. A remainder is smaller than the divisor and has the
sign of the dividend, and from quotient and remainder the dividend is got back, reduced or not. -/
theorem arithmetic_exact :
    (∀ (op : Arithmetic) (a b : Value), (¬∃ x y, a = .integer x ∧ b = .integer y) →
      op.apply a b = .error (.nonNumerics a b)) ∧
    (∀ (op : Arithmetic) (x y : Int64),
      (op.divides = true ∧ y = 0 →
        op.apply (.integer x) (.integer y) = .error .divisionByZero) ∧
      (¬(op.divides = true ∧ y = 0) → ∃ r, op.apply (.integer x) (.integer y) = .ok (.integer r) ∧
        Wraps (op.onIntegers x.toInt y.toInt) r)) ∧
    ∀ x y : Int64, y ≠ 0 → ∃ q r p : Int64,
      Arithmetic.divide.apply (.integer x) (.integer y) = .ok (.integer q) ∧
      (q.toInt = x.toInt.tdiv y.toInt ↔ ¬(x.toInt = -9223372036854775808 ∧ y.toInt = -1)) ∧
      Arithmetic.remainder.apply (.integer x) (.integer y) = .ok (.integer r) ∧
      r.toInt.natAbs < y.toInt.natAbs ∧ (r.toInt = 0 ∨ r.toInt.sign = x.toInt.sign) ∧
      Arithmetic.multiply.apply (.integer q) (.integer y) = .ok (.integer p) ∧
      Arithmetic.add.apply (.integer p) (.integer r) = .ok (.integer x) := by
  refine ⟨fun op a b => Arithmetic.apply_of_not_integers, ?_, ?_⟩
  · intro op x y
    constructor
    · rintro ⟨divides, rfl⟩
      rw [Arithmetic.apply, Arithmetic.onWords_of_zero divides]
      rfl
    · intro possible
      obtain ⟨r, result, wraps⟩ := Arithmetic.wraps_onWords x possible
      exact ⟨r, Arithmetic.apply_of_onWords result, wraps⟩
  · intro x y hy
    have quotient : Arithmetic.divide.onWords x y = .ok (x / y) := if_neg hy
    have remainder : Arithmetic.remainder.onWords x y = .ok (x % y) := if_neg hy
    have sum : Arithmetic.add.onWords (x / y * y) (x % y) = .ok x :=
      congrArg Except.ok (div_mul_add_mod x y)
    exact ⟨x / y, x % y, x / y * y, Arithmetic.apply_of_onWords quotient, toInt_div_eq_iff,
      Arithmetic.apply_of_onWords remainder, natAbs_mod_lt x hy, sign_mod x y, rfl,
      Arithmetic.apply_of_onWords sum⟩

/-- The least word divided by -1, where the quotient does not fit. -/
theorem arithmetic_exact_least :
    Arithmetic.add.apply (.integer 1) (.string "1") =
      .error (.nonNumerics (.integer 1) (.string "1")) ∧
    ∃ q r p : Int64,
      Arithmetic.divide.apply (.integer Int64.minValue) (.integer (-1)) = .ok (.integer q) ∧
      q.toInt ≠ Int64.minValue.toInt.tdiv (-1) ∧
      Arithmetic.remainder.apply (.integer Int64.minValue) (.integer (-1)) = .ok (.integer r) ∧
      Arithmetic.multiply.apply (.integer q) (.integer (-1)) = .ok (.integer p) ∧
      Arithmetic.add.apply (.integer p) (.integer r) = .ok (.integer Int64.minValue) := by
  obtain ⟨refused, -, divided⟩ := arithmetic_exact
  obtain ⟨q, r, p, quotient, fits, remainder, -, -, product, sum⟩ :=
    divided Int64.minValue (-1) (by decide)
  refine ⟨refused .add (.integer 1) (.string "1") ?_, q, r, p, quotient, ?_, remainder, product, sum⟩
  · rintro ⟨x, y, -, other⟩
    cases other
  · exact fun same => fits.mp same ⟨rfl, rfl⟩

end Lisplet
