import Lox.Proofs.Grammar.Precedence

/-!
# What is read by what

The parsers of expressions and statements call one another, and each call gets one step fewer. Here is each of them once
more without steps, but with the parsers that it calls as a parameter (`Reading.body`); with those of `n` steps, it is the
parser of `n + 1` steps (`Reading.within_succ`).

A call precedes another one if fewer items are left, or as many and what is read is tighter (`Reading.Precedes`). No
parser calls itself forever if its calls precede it; `Reading.read` is the parser that makes only these, and is starved
in place of any other.
-/

namespace Lox

open Lox.Parser

/-- How many items are left. -/
def TokenStream.length (s : TokenStream) : Nat := s.upcoming.length

/-- What a parser reads, and what it is given of what was read before. -/
inductive Reading : Type → Type
  | expressionAt (level : Level) : Reading Expr
  | operationsAfter (level : InfixLevel) (left : Expr) : Reading Expr
  | accessesAfter (object : Expr) : Reading Expr
  | expressions (listing : Listing) : Reading (List Expr)
  | expressionsFrom (listing : Listing) (count : Nat) : Reading (List Expr)
  | parametersFrom (count : Nat) : Reading (List String)
  | declaration : Reading Stmt
  | statement : Reading Stmt
  | blockRest : Reading (List Stmt)
  | function : Reading FunDecl
  | methods : Reading (List FunDecl)
  | program : Reading Program

namespace Reading

variable {α β : Type}

/-- The parser of so many steps. -/
def within (n : Nat) : Reading α → Parser α
  | expressionAt level => Lox.expressionAt n level
  | operationsAfter level left => Lox.operationsAfter n level left
  | accessesAfter object => Lox.accessesAfter n object
  | expressions listing => Lox.expressions n listing
  | expressionsFrom listing count => Lox.expressionsFrom n listing count
  | parametersFrom count => Lox.parametersFrom n count
  | declaration => Lox.declaration n
  | statement => Lox.statement n
  | blockRest => Lox.blockRest n
  | function => Lox.function n
  | methods => Lox.methods n
  | program => Lox.program n

/-! ## Parts of statements -/

/-- Reads an expression and the symbol behind it. -/
def closed (expression : Parser Expr) (symbol : Symbol) (fault : Fault) (result : Expr → α) : Parser α := do
  let e ← expression
  expectSymbol symbol fault
  pure (result e)

/-- Reads a symbol, with or without an expression before it. -/
def optional (expression : Parser Expr) (symbol : Symbol) (fault : Fault) (result : Option Expr → α) : Parser α := do
  if ← takeSymbol symbol then pure (result none)
  else closed expression symbol fault fun e => result (some e)

/-- Reads a variable declaration behind its keyword. -/
def variableDeclaration (expression : Parser Expr) : Parser Stmt := do
  let name ← expectIdentifier
  let init ← do
    if ← takeSymbol .equal then
      let value ← expression
      pure (some value)
    else pure none
  expectSymbol .semicolon .variableUnterminated
  pure (.varDecl name init)

/-- Reads what starts a `for` loop. -/
def forInit (expression : Parser Expr) : Parser (Option Stmt) := do
  if ← takeSymbol .semicolon then pure none
  else if ← takeKeyword .varWord then
    let declaration ← variableDeclaration expression
    pure (some declaration)
  else
    let first ← closed expression .semicolon .expressionUnterminated .expression
    pure (some first)

/-- Reads the parameters of a function behind the opening parenthesis, those behind the first one by `others`. -/
def parameters (others : Parser (List String)) : Parser (List String) := do
  if ← takeSymbol .rightParen then pure []
  else
    let first ← expectIdentifier
    let others ← others
    expectSymbol .rightParen .parametersUnclosed
    pure (first :: others)

/-! ## Calls -/

/-- Reads something, and what is in it by `call`. -/
def body (call : ∀ {β : Type}, Reading β → Parser β) : Reading α → Parser α
  | expressionAt .assignment => do
    let target ← call (expressionAt (.between .or))
    match ← takeSymbol? .equal with
    | none => pure target
    | some position =>
      let value ← call (expressionAt .assignment)
      match target.assignment? value with
      | some e => pure e
      | none =>
        report position .assignmentTargetInvalid
        pure target
  | expressionAt (.between level) => do
    let first ← call (expressionAt level.operand)
    call (operationsAfter level first)
  | expressionAt .ternary => do
    let test ← call (expressionAt (.between .comparison))
    if ← takeSymbol .question then
      let ifTrue ← call (expressionAt (.between .comparison))
      expectSymbol .colon .ternaryColonMissing
      let ifFalse ← call (expressionAt (.between .comparison))
      pure (.ternary test ifTrue ifFalse)
    else pure test
  | expressionAt .unary => do
    match ← takeSome Token.unaryOp? with
    | some op =>
      let operand ← call (expressionAt .unary)
      pure (.unary op operand)
    | none => call (expressionAt .call)
  | expressionAt .call => do
    let callee ← call (expressionAt .primary)
    call (accessesAfter callee)
  | expressionAt .primary => do
    let item ← next
    match item.content with
    | .error e => fail item.position (.scan e)
    | .ok token =>
      match token.expression? with
      | some e => pure e
      | none =>
        match token with
        | .keyword .superWord =>
          expectSymbol .dot .superDotMissing
          let method ← expectIdentifier
          pure (.super method)
        | .symbol .leftParen =>
          let inner ← call (expressionAt .assignment)
          expectSymbol .rightParen .groupUnclosed
          pure (.group inner)
        | .symbol .leftBracket =>
          let items ← call (expressions .elements)
          pure (.list items)
        | _ =>
          if token.isInfixSign then
            report item.position .leftOperandMissing
            let _ ← attempt (call (expressionAt .assignment))
            panic
          else fail item.position .expressionExpected
  | operationsAfter level left => do
    match ← takeSome level.operator? with
    | none => pure left
    | some op =>
      let right ← call (expressionAt level.operand)
      call (operationsAfter level (op.apply left right))
  | accessesAfter object => do
    if ← takeSymbol .leftParen then
      let arguments ← call (expressions .arguments)
      call (accessesAfter (.call object arguments))
    else if ← takeSymbol .dot then
      let property ← expectIdentifier
      call (accessesAfter (.get object property))
    else if ← takeSymbol .leftBracket then
      let position ← call (expressionAt .assignment)
      expectSymbol .rightBracket .indexUnclosed
      call (accessesAfter (.index object position))
    else pure object
  | expressions listing => do
    if ← takeSymbol listing.close then pure []
    else call (expressionsFrom listing 0)
  | expressionsFrom listing count => do
    reportIf (listing.isFull count) .argumentsTooMany
    let first ← call (expressionAt .assignment)
    if ← takeSymbol .comma then
      let others ← call (expressionsFrom listing (count + 1))
      pure (first :: others)
    else
      expectSymbol listing.close listing.unclosed
      pure [first]
  | parametersFrom count => do
    if ← takeSymbol .comma then
      reportIf (maxArguments ≤ count) .parametersTooMany
      let name ← expectIdentifier
      let others ← call (parametersFrom (count + 1))
      pure (name :: others)
    else pure []
  | declaration => do
    if ← takeKeyword .varWord then variableDeclaration (call (expressionAt .assignment))
    else if ← takeKeyword .funWord then
      let f ← call function
      pure (.funDecl f)
    else if ← takeKeyword .classWord then
      let name ← expectIdentifier
      let parent ← parentClass
      expectSymbol .leftBrace .classBodyMissing
      let members ← call methods
      pure (.classDecl name parent members)
    else call statement
  | statement => do
    if ← takeKeyword .ifWord then
      expectSymbol .leftParen .ifUnparenthesized
      let test ← call (expressionAt .assignment)
      expectSymbol .rightParen .ifConditionUnclosed
      let thenBranch ← call statement
      if ← takeKeyword .elseWord then
        let elseBranch ← call statement
        pure (.conditional test thenBranch (some elseBranch))
      else pure (.conditional test thenBranch none)
    else if ← takeKeyword .whileWord then
      expectSymbol .leftParen .whileUnparenthesized
      let test ← call (expressionAt .assignment)
      expectSymbol .rightParen .whileConditionUnclosed
      let looped ← call statement
      pure (.loop test looped)
    else if ← takeKeyword .forWord then
      expectSymbol .leftParen .forUnparenthesized
      let init ← forInit (call (expressionAt .assignment))
      let test ← optional (call (expressionAt .assignment)) .semicolon .loopConditionUnterminated id
      let increment ← optional (call (expressionAt .assignment)) .rightParen .forClausesUnclosed id
      let looped ← call statement
      pure (.forLoop init test increment looped)
    else if ← takeKeyword .printWord then
      closed (call (expressionAt .assignment)) .semicolon .printUnterminated .print
    else if ← takeKeyword .returnWord then
      optional (call (expressionAt .assignment)) .semicolon .returnUnterminated .returnValue
    else if ← takeKeyword .breakWord then breakStatement
    else if ← takeSymbol .leftBrace then
      let block ← call blockRest
      pure (.block block)
    else closed (call (expressionAt .assignment)) .semicolon .expressionUnterminated .expression
  | blockRest => do
    if ← nextIs fun t => t.isEof || t.isSymbol .rightBrace then
      expectSymbol .rightBrace .blockUnclosed
      pure []
    else
      let first ← call declaration
      let others ← call blockRest
      pure (first :: others)
  | function => do
    let name ← expectIdentifier
    expectSymbol .leftParen .functionUnparenthesized
    let names ← parameters (call (parametersFrom 1))
    expectSymbol .leftBrace .functionBodyMissing
    let block ← call blockRest
    pure (.mk name names block)
  | methods => do
    if ← takeSymbol .rightBrace then pure []
    else if ← atEof then
      reportIf true .classBodyUnclosed
      panic
    else
      let first ← call function
      let others ← call methods
      pure (first :: others)
  | program => do
    if ← atEof then pure []
    else
      match ← attempt (call declaration) with
      | some first =>
        let others ← call program
        pure (first :: others)
      | none =>
        skipPastSemicolon
        call program

/-- A parser calls those with one step fewer. -/
theorem within_succ (n : Nat) (r : Reading α) : r.within (n + 1) = r.body (within n) := by
  cases r with
  | expressionAt level => cases level <;> rfl
  | _ => rfl

/-! ## The order of calls -/

/-- How loose what is read is, among what is read at the same place. What is read only behind something else comes
first. -/
def rank : Reading α → Nat
  | operationsAfter _ _ => 0
  | accessesAfter _ => 0
  | parametersFrom _ => 0
  | function => 0
  | methods => 1
  | expressionAt level => level.rank
  | expressionsFrom _ _ => 11
  | expressions _ => 12
  | statement => 11
  | declaration => 12
  | blockRest => 13
  | program => 13

/-- One call precedes another if fewer items are left to it, or as many and what it reads is tighter. -/
def Precedes (r' : Reading β) (s' : TokenStream) (r : Reading α) (s : TokenStream) : Prop :=
  s'.length < s.length ∨ s'.length = s.length ∧ r'.rank < r.rank

instance (r' : Reading β) (s' : TokenStream) (r : Reading α) (s : TokenStream) : Decidable (r'.Precedes s' r s) :=
  inferInstanceAs (Decidable (_ ∨ _))

/-- The calls that precede one. Any other is starved. -/
def below (call : ∀ {β : Type}, Reading β → Parser β) (r : Reading α) (s : TokenStream) {β : Type} (r' : Reading β) :
    Parser β :=
  fun s' => if r'.Precedes s' r s then call r' s' else .starved

/-- Reads something by calls that precede. -/
def read {α : Type} (r : Reading α) (s : TokenStream) : Parsed α :=
  r.body (fun r' s' => if _h : r'.Precedes s' r s then read r' s' else .starved) s
termination_by (s.length, r.rank)
decreasing_by exact Prod.lex_def.2 _h

/-- Reading calls for what precedes. -/
theorem read_eq (r : Reading α) (s : TokenStream) : r.read s = r.body (below read r s) s := by
  rw [read]
  rfl

end Reading

end Lox
