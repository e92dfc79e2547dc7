import Lox.Syntax.Expression
import Lox.Token.Lookahead

/-!
# Reading statements

Declarations and statements, each known by its first token. The first argument of every function bounds the depth of
the reading.
-/

namespace Lox

open Lox.Parser

variable {σ : Type} [ItemSource σ]

/-- Reads further parameters behind commas; `count` have been read. -/
def parametersFrom : Nat → Nat → ParserOn σ (List String)
  | 0, _ => starve
  | n + 1, count => do
    if ← takeSymbol .comma then
      reportIf (maxArguments ≤ count) .parametersTooMany
      let name ← expectIdentifier
      let others ← parametersFrom n (count + 1)
      pure (name :: others)
    else pure []

/-- Reads the parameters of a function behind the opening parenthesis, and the closing one. -/
def parameters (n : Nat) : ParserOn σ (List String) := do
  if ← takeSymbol .rightParen then pure []
  else
    let first ← expectIdentifier
    let others ← parametersFrom n 1
    expectSymbol .rightParen .parametersUnclosed
    pure (first :: others)

/-- Reads a variable declaration behind its keyword. -/
def variableDeclaration (n : Nat) : ParserOn σ Stmt := do
  let name ← expectIdentifier
  let init ← do
    if ← takeSymbol .equal then
      let value ← expression n
      pure (some value)
    else pure none
  expectSymbol .semicolon .variableUnterminated
  pure (.varDecl name init)

/-- Reads an expression as a statement. -/
def expressionStatement (n : Nat) : ParserOn σ Stmt := do
  let value ← expression n
  expectSymbol .semicolon .expressionUnterminated
  pure (.expression value)

/-- Reads the parent of a class, if one is named. -/
def parentClass : ParserOn σ (Option String) := do
  if ← takeSymbol .less then
    let name ← expectIdentifier
    pure (some name)
  else pure none

/-- Reads the test of a `for` loop and its semicolon. -/
def forTest (n : Nat) : ParserOn σ (Option Expr) := do
  if ← takeSymbol .semicolon then pure none
  else
    let test ← expression n
    expectSymbol .semicolon .loopConditionUnterminated
    pure (some test)

/-- Reads the increment of a `for` loop and the closing parenthesis. -/
def forIncrement (n : Nat) : ParserOn σ (Option Expr) := do
  if ← takeSymbol .rightParen then pure none
  else
    let increment ← expression n
    expectSymbol .rightParen .forClausesUnclosed
    pure (some increment)

/-- Reads what starts a `for` loop: nothing, a variable declaration or an expression, and its semicolon. -/
def forInit (n : Nat) : ParserOn σ (Option Stmt) := do
  if ← takeSymbol .semicolon then pure none
  else if ← takeKeyword .varWord then
    let declaration ← variableDeclaration n
    pure (some declaration)
  else
    let start ← expressionStatement n
    pure (some start)

/-- Reads a `print` statement behind its keyword. -/
def printStatement (n : Nat) : ParserOn σ Stmt := do
  let value ← expression n
  expectSymbol .semicolon .printUnterminated
  pure (.print value)

/-- Reads a `return` statement behind its keyword. -/
def returnStatement (n : Nat) : ParserOn σ Stmt := do
  if ← takeSymbol .semicolon then pure (.returnValue none)
  else
    let value ← expression n
    expectSymbol .semicolon .returnUnterminated
    pure (.returnValue (some value))

/-- Reads a `break` statement behind its keyword. -/
def breakStatement : ParserOn σ Stmt := do
  expectSymbol .semicolon .breakUnterminated
  pure .breakLoop

mutual

/-- Reads a declaration or a statement. -/
def declaration : Nat → ParserOn σ Stmt
  | 0 => starve
  | n + 1 => do
    if ← takeKeyword .varWord then variableDeclaration n
    else if ← takeKeyword .funWord then
      let f ← function n
      pure (.funDecl f)
    else if ← takeKeyword .classWord then
      let name ← expectIdentifier
      let parent ← parentClass
      expectSymbol .leftBrace .classBodyMissing
      let body ← methods n
      pure (.classDecl name parent body)
    else statement n

/-- Reads a statement that declares nothing. -/
def statement : Nat → ParserOn σ Stmt
  | 0 => starve
  | n + 1 => do
    if ← takeKeyword .ifWord then
      expectSymbol .leftParen .ifUnparenthesized
      let test ← expression n
      expectSymbol .rightParen .ifConditionUnclosed
      let thenBranch ← statement n
      if ← takeKeyword .elseWord then
        let elseBranch ← statement n
        pure (.conditional test thenBranch (some elseBranch))
      else pure (.conditional test thenBranch none)
    else if ← takeKeyword .whileWord then
      expectSymbol .leftParen .whileUnparenthesized
      let test ← expression n
      expectSymbol .rightParen .whileConditionUnclosed
      let body ← statement n
      pure (.loop test body)
    else if ← takeKeyword .forWord then
      expectSymbol .leftParen .forUnparenthesized
      let init ← forInit n
      let test ← forTest n
      let increment ← forIncrement n
      let body ← statement n
      pure (.forLoop init test increment body)
    else if ← takeKeyword .printWord then printStatement n
    else if ← takeKeyword .returnWord then returnStatement n
    else if ← takeKeyword .breakWord then breakStatement
    else if ← takeSymbol .leftBrace then
      let body ← blockRest n
      pure (.block body)
    else expressionStatement n

/-- Reads statements up to the closing brace, and the brace. -/
def blockRest : Nat → ParserOn σ (List Stmt)
  | 0 => starve
  | n + 1 => do
    if ← nextIs fun t => t.isEof || t.isSymbol .rightBrace then
      expectSymbol .rightBrace .blockUnclosed
      pure []
    else
      let first ← declaration n
      let others ← blockRest n
      pure (first :: others)

/-- Reads a function from its name to the end of its body. -/
def function : Nat → ParserOn σ FunDecl
  | 0 => starve
  | n + 1 => do
    let name ← expectIdentifier
    expectSymbol .leftParen .functionUnparenthesized
    let names ← parameters n
    expectSymbol .leftBrace .functionBodyMissing
    let body ← blockRest n
    pure (.mk name names body)

/-- Reads the methods of a class up to the closing brace, and the brace. -/
def methods : Nat → ParserOn σ (List FunDecl)
  | 0 => starve
  | n + 1 => do
    if ← takeSymbol .rightBrace then pure []
    else if ← atEof then
      reportIf true .classBodyUnclosed
      panic
    else
      let first ← function n
      let others ← methods n
      pure (first :: others)

end

/-- Reads a whole program. Behind what cannot be read it resumes at the next semicolon. -/
def program : Nat → ParserOn σ Program
  | 0 => starve
  | n + 1 => do
    if ← atEof then pure []
    else
      match ← attempt (declaration n) with
      | some first =>
        let others ← program n
        pure (first :: others)
      | none =>
        skipPastSemicolon
        program n

/-- Enough steps to read a text of `items` items: fewer than twenty levels of reading lie between one item and
the next. -/
def enoughSteps (items : Nat) : Nat := 20 * (items + 1)

/-- What reading a program says about the text. -/
def ParsedOn.verdict {σ : Type} : ParsedOn σ Program → Except (List Diagnostic) Program
  | ok program _ [] => .ok program
  | ok _ _ reports => .error reports
  | panic _ reports => .error reports
  | starved => .error []

/-- Reads a text as a program, or tells everything that is wrong with it. -/
def Program.parse (text : String) : Except (List Diagnostic) Program :=
  (program (enoughSteps (scanItems text).length) (Lookahead.ofText text)).verdict

end Lox
