import Lisplet.Text.Line
import Lisplet.Text.Numeral
/-!
Error reports for a terminal: a title, the place, the line of the source that is at fault with the
whole line underlined, and a label under the middle of the line. Colours are ANSI escape sequences.

The place is given by rows, so its number is larger than the line's own where an earlier line holds
line breaks other than its line feed. A tab is drawn as the blanks up to the next multiple of four
columns, where a column is a character of the line. Blanks at the end of the line are not drawn but
are underlined.
-/
namespace Lisplet

/-- The colours of a report, each by its ANSI code. -/
inductive Colour where
  | title
  | frame
  | gutter
  | red
  | yellow
  | cyan

def Colour.code : Colour → String
  | .title => "31"
  | .frame => "38;5;246"
  | .gutter => "38;5;240"
  | .red => "91"
  | .yellow => "93"
  | .cyan => "96"

/-- The text in the colour. -/
def Colour.paint (colour : Colour) (text : String) : String :=
  "\x1b[" ++ colour.code ++ "m" ++ text ++ "\x1b[0m"

/-- What a report says, and the line it is about. -/
structure Report where
  code : String
  message : String
  label : String
  line : Nat

namespace Report

/-- The text as often as asked for. -/
def repeated (n : Nat) (text : String) : String := String.join (List.replicate n text)

/-- A line as it is drawn: all its characters, and those without the blanks at its end. -/
structure Drawing where
  width : Nat
  visible : Array Char

namespace Drawing

def ofLine (text : List Char) : Drawing :=
  ⟨text.length, (text.reverse.dropWhile isBlank).reverse.toArray⟩

/-- The column under which the label hangs. -/
def middle (d : Drawing) : Nat := d.width / 2

/-- How many cells a column takes. -/
def cells (d : Drawing) (column : Nat) : Nat :=
  if d.visible[column]? = some '\t' then 4 - column % 4 else 1

/-- One column of the line itself. -/
def source (d : Drawing) (column : Nat) (c : Char) : String :=
  if isBlank c then repeated (d.cells column) (Colour.red.paint " ")
  else Colour.red.paint (String.singleton c)

/-- One column of the underline. -/
def underline (d : Drawing) (column : Nat) : String :=
  let dash := Colour.red.paint "─"
  if column = d.middle then
    if column < d.width then Colour.red.paint "┬" ++ repeated (d.cells column - 1) dash
    else Colour.red.paint "│"
  else if column < d.width then repeated (d.cells column) dash
  else " "

/-- One column of the line that leads to the label. -/
def pointer (d : Drawing) (column : Nat) : String :=
  let dash := Colour.red.paint "─"
  if column < d.middle then repeated (d.cells column) " "
  else if column = d.middle then
    Colour.red.paint "╰" ++ repeated (d.cells column - 1) dash
  else repeated (d.cells column) dash

/-- The columns of the lines below the source. -/
def columns (d : Drawing) : List Nat := List.range (d.width + 2)

end Drawing

/-- The report on the source text that was read from `path`. -/
def render (path source : String) (r : Report) : String :=
  let lines := Line.split source
  let number := Numeral.ofNat (Line.row lines r.line)
  let d := Drawing.ofLine (Line.pick lines r.line).text
  let indent := repeated (number.length + 2) " "
  let gutter := " " ++ Colour.gutter.paint (repeated (number.length + 1) " " ++ "│") ++ " "
  let drawn := (List.range d.visible.size).zipWith d.source d.visible.toList
  String.join (List.map (· ++ "\n") [
    Colour.title.paint ("[" ++ r.code ++ "] Error:") ++ " " ++ r.message,
    indent ++ Colour.frame.paint "╭" ++ Colour.frame.paint "─" ++ Colour.frame.paint "[" ++
      " " ++ path ++ ":" ++ number ++ ":1 " ++ Colour.frame.paint "]",
    indent ++ Colour.frame.paint "│",
    " " ++ Colour.frame.paint (number ++ " │") ++ " " ++ String.join drawn,
    gutter ++ String.join (d.columns.map d.underline),
    gutter ++ String.join (d.columns.map d.pointer) ++ " " ++ r.label,
    Colour.frame.paint (repeated (number.length + 2) "─" ++ "╯")])

end Report
end Lisplet
