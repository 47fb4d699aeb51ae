import Lisplet.Text.Numeral
import Lisplet.Text.Printable
/-!
Structural dumps of data, in two layouts. The compact layout is one line. The indented layout puts
every part on a line of its own, four blanks deeper than what holds it, with a comma after it; a
list without items stays `[]`.

Text in a dump is quoted: it stands between double quotes, with a backslash before quotes and
backslashes, short escapes for the usual controls, and the hexadecimal code point for every other
character that does not print on its own.
-/
namespace Lisplet
namespace Quoted

/-- How one character stands inside the quotes. -/
def escape (c : Char) : List Char :=
  match c.toNat with
  | 0 => ['\\', '0']
  | 9 => ['\\', 't']
  | 10 => ['\\', 'n']
  | 13 => ['\\', 'r']
  | 34 => ['\\', '"']
  | 92 => ['\\', '\\']
  | n => if isPrintable c then [c] else "\\u\x7b".toList ++ Nat.toDigits 16 n ++ ['\x7d']

/-- The text between quotes. -/
def encode (s : String) : String := String.ofList ('"' :: s.toList.flatMap escape ++ ['"'])

end Quoted

/-- A piece of data as a dump shows it. A tuple may have an empty name. -/
inductive Dump where
  | text (text : String)
  | tuple (name : String) (parts : List Dump)
  | record (name : String) (fields : List (String × Dump))
  | list (items : List Dump)

namespace Dump

mutual
/-- The dump on one line. -/
def compact : Dump → String
  | .text t => t
  | .tuple name parts => name ++ "(" ++ ", ".intercalate (compactAll parts) ++ ")"
  | .record name fields => name ++ " \x7b " ++ ", ".intercalate (compactFields fields) ++ " \x7d"
  | .list items => "[" ++ ", ".intercalate (compactAll items) ++ "]"

/-- Each of the dumps on one line. -/
def compactAll : List Dump → List String
  | [] => []
  | d :: ds => d.compact :: compactAll ds

/-- Each of the fields on one line, after its name. -/
def compactFields : List (String × Dump) → List String
  | [] => []
  | (name, d) :: fields => (name ++ ": " ++ d.compact) :: compactFields fields
end

/-- The start of a line that stands `depth` levels deep. -/
def margin (depth : Nat) : String := String.ofList (List.replicate (4 * depth) ' ')

mutual
/-- Write the dump over several lines after `out`, whose last line stands `depth` levels deep. -/
def write (depth : Nat) (out : String) : Dump → String
  | .text t => out ++ t
  | .tuple name parts =>
    writeParts (depth + 1) (out ++ name ++ "(\n") parts ++ margin depth ++ ")"
  | .record name fields =>
    writeFields (depth + 1) (out ++ name ++ " \x7b\n") fields ++ margin depth ++ "\x7d"
  | .list [] => out ++ "[]"
  | .list (item :: items) =>
    writeParts (depth + 1) (out ++ "[\n") (item :: items) ++ margin depth ++ "]"

/-- Write each of the dumps from a line of its own on. -/
def writeParts (depth : Nat) (out : String) : List Dump → String
  | [] => out
  | d :: ds => writeParts depth (write depth (out ++ margin depth) d ++ ",\n") ds

/-- Write each of the fields from a line of its own on, after its name. -/
def writeFields (depth : Nat) (out : String) : List (String × Dump) → String
  | [] => out
  | (name, d) :: fields =>
    writeFields depth (write depth (out ++ margin depth ++ name ++ ": ") d ++ ",\n") fields
end

/-- The dump over several lines. -/
def indented (d : Dump) : String := write 0 "" d

/-- A dump of a natural number. -/
def nat (n : Nat) : Dump := .text (Numeral.ofNat n)

/-- A dump of a 64-bit word. -/
def word (v : Int64) : Dump := .text (Numeral.ofWord v)

/-- A dump of a text, in quotes. -/
def quoted (s : String) : Dump := .text (Quoted.encode s)

end Dump
end Lisplet
