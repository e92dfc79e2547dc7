import Lox.Syntax.Basic
import Lox.Number.Text

/-!
# Expressions as text

An expression is written as an s-expression: a head word and the parts, in parentheses. Literals stand without
parentheses, strings without quotes.
-/

namespace Lox

/-- The text of a literal. -/
def Literal.text : Literal → String
  | number x => Number.text x
  | string s => s
  | boolean b => if b then "true" else "false"
  | nil => "nil"

/-- Parts in parentheses, one space between them. -/
def parenthesized (parts : List String) : String :=
  "(" ++ String.intercalate " " parts ++ ")"

mutual

/-- The s-expression of an expression. -/
def Expr.text : Expr → String
  | .literal l => l.text
  | .group e => parenthesized ["group", e.text]
  | .unary op e => parenthesized [op.sign, e.text]
  | .binary l op r => parenthesized [op.sign, l.text, r.text]
  | .logical l op r => parenthesized [op.sign, l.text, r.text]
  | .ternary test a b => parenthesized ["?", test.text, ":", a.text, b.text]
  | .list items => parenthesized ("list" :: Expr.texts items)
  | .variable name => parenthesized ["ident", name]
  | .this => parenthesized ["this"]
  | .super method => parenthesized ["super", method]
  | .assign target e => parenthesized ["=", target, e.text]
  | .call callee arguments => parenthesized ("call" :: callee.text :: Expr.texts arguments)
  | .get object property => parenthesized ["get", object.text, property]
  | .set object property e => parenthesized ["set", object.text, property, e.text]
  | .index object position => parenthesized ["index", object.text, position.text]
  | .setIndex object position e => parenthesized ["set-index", object.text, position.text, e.text]

/-- The s-expressions of several expressions. -/
def Expr.texts : List Expr → List String
  | [] => []
  | e :: rest => e.text :: Expr.texts rest

end

end Lox
