import Lisplet.Expr.Keyword
/-!
Expressions as text. An expression is first spelled as a list of tokens, and the tokens are then
laid out: one blank between neighbours, but none after an opening and none before a closing
parenthesis. The text says nothing about lines.
-/
namespace Lisplet

/-- The token that spells a literal. -/
def Literal.token : Literal → TokenKind
  | .undefined => .symbol undefinedWord
  | .integer v => .integer v
  | .string s => .string s

/-- The tokens of a parenthesised list. -/
def parens (tokens : List TokenKind) : List TokenKind := .leftParen :: tokens ++ [.rightParen]

namespace Expr

mutual
/-- The tokens that spell the expression. The body of a function is spelled without a `block` of
its own if it is one. -/
def tokens : Expr → List TokenKind
  | .literal _ v => [v.token]
  | .block _ body => parens (Keyword.block.token :: tokensAll body)
  | .access _ name => [.symbol name]
  | .assign _ mode name value =>
    parens ((Keyword.assign mode).token :: .symbol name :: tokens value)
  | .function _ name parameters (.block _ body) =>
    parens (Keyword.function.token :: (name.toList.map .symbol ++ parens (parameters.map .symbol) ++
      tokensAll body))
  | .function _ name parameters body =>
    parens (Keyword.function.token :: (name.toList.map .symbol ++ parens (parameters.map .symbol) ++
      tokens body))
  | .call _ callee arguments => parens (tokens callee ++ tokensAll arguments)
  | .leave _ value => parens (Keyword.leave.token :: tokens value)
  | .conditional _ condition thenBranch elseBranch =>
    parens (Keyword.conditional.token ::
      (tokens condition ++ tokens thenBranch ++ tokens elseBranch))
  | .object _ properties => parens (Keyword.object.token :: tokensProperties properties)
  | .field _ receiver name => parens (Keyword.field.token :: (tokens receiver ++ [.symbol name]))
  | .setField _ receiver name value =>
    parens (Keyword.setField.token :: (tokens receiver ++ .symbol name :: tokens value))
  | .method _ receiver name arguments =>
    parens (Keyword.method.token :: (tokens receiver ++ .symbol name :: tokensAll arguments))

/-- The tokens of the expressions, one after the other. -/
def tokensAll : List Expr → List TokenKind
  | [] => []
  | e :: es => tokens e ++ tokensAll es

/-- The tokens of an object's properties, each in parentheses. -/
def tokensProperties : List (String × Expr) → List TokenKind
  | [] => []
  | (name, value) :: properties =>
    parens (.symbol name :: tokens value) ++ tokensProperties properties
end

end Expr

/-- Lay tokens out on one line. -/
def layout : List TokenKind → List Char
  | [] => []
  | [t] => t.lexeme.toList
  | t :: u :: rest =>
    t.lexeme.toList ++ (if t = .leftParen ∨ u = .rightParen then [] else [' ']) ++
      layout (u :: rest)

/-- The expression on one line. -/
def Expr.text (e : Expr) : String := String.ofList (layout e.tokens)

/-- The script, one expression to a line. -/
def Script.text (s : Script) : String := "\n".intercalate (s.forms.map Expr.text)

end Lisplet
