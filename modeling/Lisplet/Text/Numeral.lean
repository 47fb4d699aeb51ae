/-!
Decimal numerals: an optional minus sign and at least one ASCII digit. Leading zeros and the
numeral `-0` are allowed, a plus sign is not. The value of a numeral is an exact integer; whether
it fits a 64-bit word is a question of its own.
-/
namespace Lisplet
namespace Numeral

/-- At least one ASCII digit, and nothing else. -/
def isDigits (cs : List Char) : Bool := !cs.isEmpty && cs.all Char.isDigit

/-- The numeral's digits, without its sign. -/
def magnitude : List Char → List Char
  | '-' :: ds => ds
  | ds => ds

/-- The characters form a decimal numeral. -/
def isNumeral (cs : List Char) : Bool := isDigits (magnitude cs)

/-- The integer that a numeral denotes. -/
def value (cs : List Char) : Int :=
  let n := Nat.ofDigitChars 10 (magnitude cs) 0
  if cs.head? = some '-' then -(n : Int) else n

/-- The integer lies within the signed 64-bit range. -/
def fits (v : Int) : Bool := -9223372036854775808 ≤ v && v ≤ 9223372036854775807

/-- The 64-bit word that a numeral denotes, if its value fits. -/
def read? (cs : List Char) : Option Int64 :=
  if fits (value cs) then some (Int64.ofInt (value cs)) else none

/-- The canonical numeral of an integer: no leading zeros, no minus sign on zero. -/
def ofInt (v : Int) : List Char :=
  if v < 0 then '-' :: Nat.toDigits 10 v.natAbs else Nat.toDigits 10 v.natAbs

/-- The canonical numeral of a 64-bit word. -/
def ofWord (v : Int64) : String := String.ofList (ofInt v.toInt)

/-- The canonical numeral of a natural number. -/
def ofNat (n : Nat) : String := String.ofList (Nat.toDigits 10 n)

end Numeral
end Lisplet
