import Lox.Source.Position

/-!
# Tokens

The words of the language: symbols, keywords, names, strings and numbers, and the mark for the end of the text. An
item is what scanning finds at one place, a token or the reason why there is none.
-/

namespace Lox

/-- The signs and operators. -/
inductive Symbol where
  | leftParen | rightParen | leftBrace | rightBrace | leftBracket | rightBracket
  | comma | dot | minus | plus | semicolon | slash | star | question | colon
  | bang | bangEqual | equal | equalEqual | greater | greaterEqual | less | lessEqual
deriving Repr, DecidableEq

namespace Symbol

/-- The name by which a symbol is listed. -/
def name : Symbol → String
  | leftParen => "LeftParen"
  | rightParen => "RightParen"
  | leftBrace => "LeftBrace"
  | rightBrace => "RightBrace"
  | leftBracket => "LeftBracket"
  | rightBracket => "RightBracket"
  | comma => "Comma"
  | dot => "Dot"
  | minus => "Minus"
  | plus => "Plus"
  | semicolon => "Semicolon"
  | slash => "Slash"
  | star => "Star"
  | question => "Question"
  | colon => "Colon"
  | bang => "Bang"
  | bangEqual => "BangEqual"
  | equal => "Equal"
  | equalEqual => "EqualEqual"
  | greater => "Greater"
  | greaterEqual => "GreaterEqual"
  | less => "Less"
  | lessEqual => "LessEqual"

/-- The characters that write a symbol. -/
def lexeme : Symbol → List Char
  | leftParen => ['(']
  | rightParen => [')']
  | leftBrace => ['{']
  | rightBrace => ['}']
  | leftBracket => ['[']
  | rightBracket => [']']
  | comma => [',']
  | dot => ['.']
  | minus => ['-']
  | plus => ['+']
  | semicolon => [';']
  | slash => ['/']
  | star => ['*']
  | question => ['?']
  | colon => [':']
  | bang => ['!']
  | bangEqual => ['!', '=']
  | equal => ['=']
  | equalEqual => ['=', '=']
  | greater => ['>']
  | greaterEqual => ['>', '=']
  | less => ['<']
  | lessEqual => ['<', '=']

/-- The symbol that some characters write. -/
def ofLexeme? : List Char → Option Symbol
  | ['('] => some leftParen
  | [')'] => some rightParen
  | ['{'] => some leftBrace
  | ['}'] => some rightBrace
  | ['['] => some leftBracket
  | [']'] => some rightBracket
  | [','] => some comma
  | ['.'] => some dot
  | ['-'] => some minus
  | ['+'] => some plus
  | [';'] => some semicolon
  | ['/'] => some slash
  | ['*'] => some star
  | ['?'] => some question
  | [':'] => some colon
  | ['!'] => some bang
  | ['!', '='] => some bangEqual
  | ['='] => some equal
  | ['=', '='] => some equalEqual
  | ['>'] => some greater
  | ['>', '='] => some greaterEqual
  | ['<'] => some less
  | ['<', '='] => some lessEqual
  | _ => none

end Symbol

/-- The reserved words. -/
inductive Keyword where
  | andWord | breakWord | classWord | elseWord | falseWord | funWord | forWord | ifWord | nilWord | orWord
  | printWord | returnWord | superWord | thisWord | trueWord | varWord | whileWord
deriving Repr, DecidableEq

namespace Keyword

/-- The name by which a keyword is listed. -/
def name : Keyword → String
  | andWord => "And"
  | breakWord => "Break"
  | classWord => "Class"
  | elseWord => "Else"
  | falseWord => "False"
  | funWord => "Fun"
  | forWord => "For"
  | ifWord => "If"
  | nilWord => "Nil"
  | orWord => "Or"
  | printWord => "Print"
  | returnWord => "Return"
  | superWord => "Super"
  | thisWord => "This"
  | trueWord => "True"
  | varWord => "Var"
  | whileWord => "While"

/-- The word itself. -/
def word : Keyword → String
  | andWord => "and"
  | breakWord => "break"
  | classWord => "class"
  | elseWord => "else"
  | falseWord => "false"
  | funWord => "fun"
  | forWord => "for"
  | ifWord => "if"
  | nilWord => "nil"
  | orWord => "or"
  | printWord => "print"
  | returnWord => "return"
  | superWord => "super"
  | thisWord => "this"
  | trueWord => "true"
  | varWord => "var"
  | whileWord => "while"

/-- The keyword that a word is, if it is reserved. -/
def ofWord? : String → Option Keyword
  | "and" => some andWord
  | "break" => some breakWord
  | "class" => some classWord
  | "else" => some elseWord
  | "false" => some falseWord
  | "fun" => some funWord
  | "for" => some forWord
  | "if" => some ifWord
  | "nil" => some nilWord
  | "or" => some orWord
  | "print" => some printWord
  | "return" => some returnWord
  | "super" => some superWord
  | "this" => some thisWord
  | "true" => some trueWord
  | "var" => some varWord
  | "while" => some whileWord
  | _ => none

end Keyword

/-- A word of the language. -/
inductive Token where
  | symbol (s : Symbol)
  | keyword (k : Keyword)
  | identifier (name : String)
  | string (content : String)
  | number (value : Float)
  /-- The end of the text. -/
  | eof
deriving Repr, Inhabited

namespace Token

/-- Whether a token is the given symbol. -/
def isSymbol (s : Symbol) : Token → Bool
  | symbol t => t == s
  | _ => false

/-- Whether a token is the given keyword. -/
def isKeyword (k : Keyword) : Token → Bool
  | keyword l => l == k
  | _ => false

/-- Whether a token marks the end. -/
def isEof : Token → Bool
  | eof => true
  | _ => false

end Token

/-- Why no token could be read at some place. -/
inductive ScanError where
  | unterminatedString
  | unrecognizedToken
deriving Repr, DecidableEq

namespace ScanError

/-- The wording of the reason. -/
def message : ScanError → String
  | unterminatedString => "unterminated string"
  | unrecognizedToken => "unrecognized token"

/-- The wording together with the place. -/
def report (e : ScanError) (p : Position) : String :=
  "scan error: " ++ e.message ++ " at " ++ p.text

end ScanError

/-- What scanning finds at one place. -/
structure Item where
  position : Position
  content : Except ScanError Token

namespace Item

/-- The token of an item that is no error. -/
def token? (i : Item) : Option Token :=
  match i.content with
  | .ok t => some t
  | .error _ => none

/-- The item at the end of a text. -/
def eof (p : Position) : Item := ⟨p, .ok .eof⟩

end Item

end Lox
