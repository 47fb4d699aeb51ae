import Mathlib.Algebra.Order.Ring.Nat
import Mathlib.Data.Char
import Mathlib.Data.List.Lex
import Lisplet.Text.Line
/-!
The bytes of a text are in the same order as its code points. In UTF-8 a code point is written in base
64. The first byte has what the digits behind it leave, and counts from a base that tells how many
digits there are (`sextets`). Among code points of one form the digits decide, as in any numeral
(`sextets_lt`), and the bases are far enough apart to keep the forms in order
(`utf8Form_eq_or_lt`). So the first two code points that differ decide in the same way as their bytes
do, whatever follows them (`utf8EncodeChar_lt`).

Offsets count bytes. What lies between two offsets that are lengths of characters is again whole
characters (`isSlice_of_toList`), and the byte of a line feed is in no other character
(`ten_mem_bytesOf_iff`).
-/
namespace Lisplet

/-- The bytes of a text in UTF-8. -/
def utf8Bytes (s : String) : List UInt8 := s.toUTF8.data.toList

/-- The code points of a text. -/
def codePoints (s : String) : List Nat := s.toList.map Char.toNat

theorem utf8Bytes_eq_flatMap (s : String) :
    utf8Bytes s = s.toList.flatMap String.utf8EncodeChar := by
  rw [utf8Bytes, String.toUTF8_eq_toByteArray, ← String.utf8Encode_toList, List.utf8Encode,
    List.toList_data_toByteArray]

/-! Numerals in base 64. -/

/-- The bytes of `v` with `k` digits behind the first byte, which counts from `base`. -/
def sextets (base : Nat) : Nat → Nat → List UInt8
  | 0, v => [UInt8.ofNat (v + base)]
  | k + 1, v => sextets base k (v / 64) ++ [UInt8.ofNat (v % 64 + 128)]

/-- A first byte that is smaller decides. -/
theorem cons_ofNat_lt {m n : Nat} (h : m < n) (fits : n < 256) (cs ds : List UInt8) :
    UInt8.ofNat m :: cs < UInt8.ofNat n :: ds := by
  refine List.cons_lt_cons_iff.mpr (.inl ?_)
  rw [UInt8.lt_iff_toNat_lt, UInt8.toNat_ofNat', UInt8.toNat_ofNat']
  omega

/-- Of two numerals of the same form, that of the smaller number is smaller, whatever follows. -/
theorem sextets_lt (base k : Nat) {v w : Nat} (h : v < w) (fits : w / 64 ^ k + base < 256)
    (cs ds : List UInt8) : sextets base k v ++ cs < sextets base k w ++ ds := by
  induction k generalizing v w cs ds with
  | zero =>
    rw [Nat.pow_zero, Nat.div_one] at fits
    exact cons_ofNat_lt (by omega) fits cs ds
  | succ k ih =>
    rw [Nat.pow_succ', ← Nat.div_div_eq_div_mul] at fits
    simp only [sextets, List.append_assoc]
    -- the digits before the last decide, unless they are the same
    by_cases upper : v / 64 = w / 64
    · rw [upper]
      exact List.append_left_lt (cons_ofNat_lt (by omega) (by omega) cs ds)
    · exact ih (by omega) fits _ _

theorem sextets_eq_cons (base k v : Nat) :
    ∃ bs, sextets base k v = UInt8.ofNat (v / 64 ^ k + base) :: bs := by
  induction k generalizing v with
  | zero => exact ⟨[], by simp [sextets]⟩
  | succ k ih =>
    obtain ⟨bs, h⟩ := ih (v / 64)
    refine ⟨bs ++ [UInt8.ofNat (v % 64 + 128)], ?_⟩
    rw [sextets, h, Nat.pow_succ', ← Nat.div_div_eq_div_mul]
    rfl

/-! Characters. -/

/-- The base that the first byte of a code point counts from, and how many digits follow it. -/
def utf8Form (v : Nat) : Nat × Nat :=
  if v ≤ 127 then (0, 0)
  else if v ≤ 2047 then (192, 1)
  else if v ≤ 65535 then (224, 2)
  else (240, 3)

/-- The first byte of a code point, as a number. -/
def utf8Lead (v : Nat) : Nat := v / 64 ^ (utf8Form v).2 + (utf8Form v).1

/-- The bytes of a code point. -/
def utf8Numeral (v : Nat) : List UInt8 := sextets (utf8Form v).1 (utf8Form v).2 v

theorem toNat_lt (c : Char) : c.toNat < 1114112 := by
  rcases c.valid with low | high
  · exact Nat.lt_trans low (by decide)
  · exact high.2

theorem utf8EncodeChar_eq_numeral (c : Char) : String.utf8EncodeChar c = utf8Numeral c.toNat := by
  have fits : c.val.toNat < 1114112 := toNat_lt c
  rw [← Char.toNat_val]
  simp only [String.utf8EncodeChar, utf8Numeral, utf8Form]
  by_cases one : c.val.toNat ≤ 127
  · simp only [if_pos one, sextets, Nat.add_zero]
  by_cases two : c.val.toNat ≤ 2047
  · have lead : c.val.toNat / 64 % 32 = c.val.toNat / 64 := by omega
    simp only [if_neg one, if_pos two, sextets, lead, List.cons_append, List.nil_append]
  by_cases three : c.val.toNat ≤ 65535
  · have lead : c.val.toNat / 4096 % 16 = c.val.toNat / 64 / 64 := by omega
    simp only [if_neg one, if_neg two, if_pos three, sextets, lead, List.cons_append,
      List.nil_append]
  · have lead : c.val.toNat / 262144 % 8 = c.val.toNat / 64 / 64 / 64 := by omega
    have next : c.val.toNat / 4096 % 64 = c.val.toNat / 64 / 64 % 64 := by omega
    simp only [if_neg one, if_neg two, if_neg three, sextets, lead, next, List.cons_append,
      List.nil_append]

/-- A code point that is smaller has the same form or a smaller first byte. -/
theorem utf8Form_eq_or_lt {v w : Nat} (h : v < w) :
    utf8Form v = utf8Form w ∨ utf8Lead v < utf8Lead w := by
  unfold utf8Lead utf8Form
  split_ifs <;> simp only [Prod.mk.injEq, true_or] <;> omega

theorem utf8Lead_lt {v : Nat} (h : v < 1114112) : utf8Lead v < 256 := by
  unfold utf8Lead utf8Form
  split_ifs <;> simp only <;> omega

/-- The bytes of a smaller character are smaller, whatever follows. -/
theorem utf8EncodeChar_lt {c d : Char} (h : c < d) (cs ds : List UInt8) :
    String.utf8EncodeChar c ++ cs < String.utf8EncodeChar d ++ ds := by
  have less : c.toNat < d.toNat := h
  have fits : utf8Lead d.toNat < 256 := utf8Lead_lt (toNat_lt d)
  rw [utf8EncodeChar_eq_numeral, utf8EncodeChar_eq_numeral, utf8Numeral, utf8Numeral]
  obtain same | first := utf8Form_eq_or_lt less
  · rw [same]
    exact sextets_lt _ _ less fits cs ds
  · obtain ⟨bs, hc⟩ := sextets_eq_cons (utf8Form c.toNat).1 (utf8Form c.toNat).2 c.toNat
    obtain ⟨bs', hd⟩ := sextets_eq_cons (utf8Form d.toNat).1 (utf8Form d.toNat).2 d.toNat
    rw [hc, hd]
    exact cons_ofNat_lt first fits _ _

/-! Texts. -/

theorem flatMap_utf8EncodeChar_lt {as bs : List Char} (h : as < bs) :
    as.flatMap String.utf8EncodeChar < bs.flatMap String.utf8EncodeChar := by
  induction as generalizing bs with
  | nil =>
    cases bs with
    | nil => exact absurd h (List.lt_irrefl [])
    | cons b bs =>
      obtain ⟨x, xs, first⟩ := List.exists_cons_of_ne_nil (String.utf8EncodeChar_ne_nil (c := b))
      rw [List.flatMap_cons, first]
      exact List.nil_lt_cons _ _
  | cons a as ih =>
    cases bs with
    | nil => exact absurd h (List.not_lt_nil _)
    | cons b bs =>
      rw [List.flatMap_cons, List.flatMap_cons]
      obtain first | ⟨rfl, later⟩ := List.cons_lt_cons_iff.mp h
      · exact utf8EncodeChar_lt first _ _
      · exact List.append_left_lt (ih later)

/-- Texts are ordered by their bytes as they are by their characters. -/
theorem utf8Bytes_lt_iff {s t : String} : utf8Bytes s < utf8Bytes t ↔ s < t := by
  rw [utf8Bytes_eq_flatMap, utf8Bytes_eq_flatMap, String.lt_iff]
  constructor
  · intro less
    rcases lt_trichotomy s.toList t.toList with first | same | second
    · exact first
    · rw [same] at less
      exact absurd less (List.lt_irrefl _)
    · exact absurd less (List.lt_asymm (flatMap_utf8EncodeChar_lt second))
  · exact flatMap_utf8EncodeChar_lt

theorem map_toNat_lt_iff {as bs : List Char} :
    as.map Char.toNat < bs.map Char.toNat ↔ as < bs := by
  induction as generalizing bs with
  | nil => cases bs <;> simp
  | cons a as ih =>
    cases bs with
    | nil => simp
    | cons b bs =>
      rw [List.map_cons, List.map_cons, List.cons_lt_cons_iff, List.cons_lt_cons_iff, ih,
        Char.toNat_inj]
      rfl

/-- And so they are by their code points. -/
theorem codePoints_lt_iff {s t : String} : codePoints s < codePoints t ↔ s < t := by
  rw [String.lt_iff]
  exact map_toNat_lt_iff

/-! Lengths and slices. -/

/-- The bytes of the characters in UTF-8. -/
def bytesOf (cs : List Char) : List UInt8 := cs.flatMap String.utf8EncodeChar

theorem utf8Bytes_eq_bytesOf (s : String) : utf8Bytes s = bytesOf s.toList := utf8Bytes_eq_flatMap s

@[simp] theorem bytesOf_nil : bytesOf [] = [] := rfl
@[simp] theorem bytesOf_feed : bytesOf ['\n'] = [10] := rfl
@[simp] theorem bytesOf_append (as bs : List Char) : bytesOf (as ++ bs) = bytesOf as ++ bytesOf bs :=
  List.flatMap_append

@[simp] theorem length_bytesOf (cs : List Char) : (bytesOf cs).length = utf8Length cs := by
  induction cs with
  | nil => rfl
  | cons c cs ih =>
    rw [bytesOf, List.flatMap_cons, List.length_append, String.length_utf8EncodeChar, utf8Length_cons]
    exact congrArg (c.utf8Size + ·) ih

theorem utf8Length_eq_utf8ByteSize (cs : List Char) :
    utf8Length cs = (String.ofList cs).utf8ByteSize := by
  induction cs with
  | nil => rfl
  | cons c cs ih =>
    rw [← List.singleton_append, String.ofList_append, String.utf8ByteSize_append, ← ih]
    simp

/-- The bytes of the text from `start` on are those of the characters, and both ends of them are
between whole characters of the text. -/
structure IsSlice (text : String) (start : Nat) (cs : List Char) : Prop where
  starts : String.Pos.Raw.IsValid text ⟨start⟩
  stops : String.Pos.Raw.IsValid text ⟨start + utf8Length cs⟩
  bytes : text.toByteArray.extract start (start + utf8Length cs) =
    (String.ofList cs).toByteArray

theorem isValid_utf8Length {text : String} {before after : List Char}
    (h : text.toList = before ++ after) : String.Pos.Raw.IsValid text ⟨utf8Length before⟩ := by
  refine String.Pos.Raw.isValid_iff_exists_append.mpr
    ⟨String.ofList before, String.ofList after, ?_, ?_⟩
  · rw [← String.ofList_append, ← h, String.ofList_toList]
  · rw [utf8Length_eq_utf8ByteSize]
    rfl

/-- Characters of a text are a slice of its bytes. -/
theorem isSlice_of_toList {text : String} {before cs after : List Char}
    (h : text.toList = before ++ (cs ++ after)) : IsSlice text (utf8Length before) cs := by
  refine ⟨isValid_utf8Length h, ?_, ?_⟩
  · rw [← utf8Length_append]
    exact isValid_utf8Length (by rw [h, List.append_assoc])
  · have text_eq : text = String.ofList before ++ (String.ofList cs ++ String.ofList after) := by
      rw [← String.ofList_append, ← String.ofList_append, ← h, String.ofList_toList]
    have start : utf8Length before = (String.ofList before).toByteArray.size + 0 := by
      rw [utf8Length_eq_utf8ByteSize, String.size_toByteArray, Nat.add_zero]
    have size : utf8Length cs = (String.ofList cs).toByteArray.size := by
      rw [utf8Length_eq_utf8ByteSize, String.size_toByteArray]
    rw [start, Nat.add_assoc, Nat.zero_add, text_eq, String.toByteArray_append,
      ByteArray.extract_append_size_add, String.toByteArray_append]
    exact ByteArray.extract_append_eq_left size

/-! Line feeds. -/

/-- If the first byte is at least 128, all are. -/
theorem le_of_mem_sextets {base k v : Nat} {b : UInt8} (lead : 128 ≤ v / 64 ^ k + base)
    (fits : v / 64 ^ k + base < 256) (mem : b ∈ sextets base k v) : 128 ≤ b.toNat := by
  induction k generalizing v with
  | zero =>
    rw [Nat.pow_zero, Nat.div_one] at lead fits
    rw [sextets, List.mem_singleton] at mem
    rw [mem, UInt8.toNat_ofNat', Nat.mod_eq_of_lt fits]
    exact lead
  | succ k ih =>
    rw [Nat.pow_succ', ← Nat.div_div_eq_div_mul] at lead fits
    rw [sextets, List.mem_append, List.mem_singleton] at mem
    rcases mem with upper | rfl
    · exact ih lead fits upper
    · rw [UInt8.toNat_ofNat']
      omega

theorem ten_mem_utf8EncodeChar_iff {c : Char} : 10 ∈ String.utf8EncodeChar c ↔ c = '\n' := by
  constructor
  · intro mem
    rw [utf8EncodeChar_eq_numeral, utf8Numeral] at mem
    by_cases ascii : c.toNat ≤ 127
    · have form : utf8Form c.toNat = (0, 0) := if_pos ascii
      rw [form, sextets, List.mem_singleton, Nat.add_zero] at mem
      have code : c.toNat = 10 := by
        have same := congrArg UInt8.toNat mem
        rw [UInt8.toNat_ofNat', Nat.mod_eq_of_lt (by omega)] at same
        exact same.symm
      exact Char.toNat_inj.mp code
    · have lead : 128 ≤ utf8Lead c.toNat := by
        unfold utf8Lead utf8Form
        split_ifs <;> simp only <;> omega
      have large := le_of_mem_sextets lead (utf8Lead_lt (toNat_lt c)) mem
      exact absurd large (by decide)
  · rintro rfl
    decide

/-- Line feeds are where the byte 10 is. -/
theorem ten_mem_bytesOf_iff {cs : List Char} : 10 ∈ bytesOf cs ↔ '\n' ∈ cs := by
  simp only [bytesOf, List.mem_flatMap, ten_mem_utf8EncodeChar_iff, exists_eq_right]

end Lisplet
