import Lisplet.Text.Dump
/-!
Tokens, and what can go wrong with a piece of text that should be one. Every token and every error
carries the number of the line on which its first character stands. Both can be shown in a listing,
in an error message and in a dump.
-/
namespace Lisplet

inductive TokenKind where
  | leftParen
  | rightParen
  | integer (value : Int64)
  | string (value : String)
  | symbol (name : String)
  | eof
  deriving DecidableEq, Repr

structure Token where
  kind : TokenKind
  line : Nat
  deriving DecidableEq, Repr

namespace TokenKind

/-- The text that a token of this kind is written as. Integers have their canonical numeral. -/
def lexeme : TokenKind → String
  | .leftParen => "("
  | .rightParen => ")"
  | .integer v => Numeral.ofWord v
  | .string s => "\"" ++ s ++ "\""
  | .symbol s => s
  | .eof => ""

/-- The kind as error messages speak of it. -/
def describe : TokenKind → String
  | .leftParen => "`(`"
  | .rightParen => "`)`"
  | .integer v => "integer `" ++ Numeral.ofWord v ++ "`"
  | .string s => "string \"" ++ s ++ "\""
  | .symbol s => "symbol `" ++ s ++ "`"
  | .eof => "end of file"

/-- The name of the token's class in a token listing. -/
def className : TokenKind → String
  | .leftParen => "LEFT_PAREN"
  | .rightParen => "RIGHT_PAREN"
  | .integer _ => "INTEGER"
  | .string _ => "STRING"
  | .symbol _ => "SYMBOL"
  | .eof => "EOF"

/-- The literal value in a token listing; kinds without one have `null`. -/
def literalText : TokenKind → String
  | .integer v => Numeral.ofWord v
  | .string s => s
  | _ => "null"

/-- One line of a token listing: class, lexeme and literal value. -/
def listing (k : TokenKind) : String := k.className ++ " " ++ k.lexeme ++ " " ++ k.literalText

def dump : TokenKind → Dump
  | .leftParen => .text "LeftParenthesis"
  | .rightParen => .text "RightParenthesis"
  | .integer v => .tuple "Integer" [.word v]
  | .string s => .tuple "String" [.quoted s]
  | .symbol s => .tuple "Symbol" [.quoted s]
  | .eof => .text "Eof"

end TokenKind

def Token.dump (t : Token) : Dump :=
  .record "Token" [("kind", t.kind.dump), ("line", .nat t.line)]

/-- Why a piece of text is no token. -/
inductive ScanFault where
  | unclosedString
  | integerOutOfRange (lexeme : String)
  deriving DecidableEq, Repr

structure ScanError where
  fault : ScanFault
  line : Nat
  deriving DecidableEq, Repr

/-- A text that points at a line of the source. -/
def atLine (line : Nat) (text : String) : String := "[line " ++ Numeral.ofNat line ++ "] " ++ text

namespace ScanFault

def message : ScanFault → String
  | .unclosedString => "Unterminated string literal"
  | .integerOutOfRange lexeme => "Integer literal " ++ lexeme ++ " does not fit in 64 bits"

/-- The shorter wording that token listings use. -/
def listing : ScanFault → String
  | .unclosedString => "Unterminated string."
  | .integerOutOfRange lexeme => "Integer out of range: " ++ lexeme

def dump : ScanFault → Dump
  | .unclosedString => .text "UnclosedString"
  | .integerOutOfRange lexeme => .tuple "IntegerOutOfRange" [.quoted lexeme]

end ScanFault

namespace ScanError

def message (e : ScanError) : String := atLine e.line e.fault.message

/-- One line of a token listing. -/
def listing (e : ScanError) : String := atLine e.line ("Error: " ++ e.fault.listing)

/-- The messages of the error's causes, outermost first. -/
def causes (e : ScanError) : List String := [e.fault.message]

def dump (e : ScanError) : Dump :=
  .record "LexicalError" [("kind", e.fault.dump), ("line", .nat e.line)]

end ScanError

/-- What one look at the text gives. -/
abbrev Reading := Except ScanError Token

namespace Reading

/-- The text is at its end. -/
def isEnd : Reading → Bool
  | .ok t => t.kind == .eof
  | .error _ => false

@[simp] theorem isEnd_ok (t : Token) : isEnd (.ok t) = (t.kind == .eof) := rfl
@[simp] theorem isEnd_error (e : ScanError) : isEnd (.error e) = false := rfl

end Reading
end Lisplet
