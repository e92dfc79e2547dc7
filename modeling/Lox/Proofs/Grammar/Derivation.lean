import Lox.Syntax.Statement

/-!
# The grammar

The grammar of the language by its productions. A `Derivation` of a nonterminal is built by one production from the
derivations of the parts; `tokens` is the sequence of tokens that it derives, and `tree` what that sequence means. The
operators and their levels are stated here for the grammar alone.

A statement is open if it ends in an `if` that a following `else` would belong to, and closed otherwise. What stands
between a test and an `else` has to be closed, so that an `else` belongs to the nearest `if` that has none.
-/

namespace Lox.Grammar

/-! ## Nonterminals -/

/-- Whether an `else` that follows a statement would belong to it. -/
inductive Ending where
  | opened
  | closed
deriving DecidableEq

/-- The nonterminals. -/
inductive Nonterminal where
  | program
  | declarations
  | declaration
  /-- A variable declaration. -/
  | «variable»
  /-- A function from its name on. -/
  | function
  | methods
  | statement (ending : Ending)
  /-- What starts a `for` loop, with its semicolon. -/
  | loopStart
  /-- An expression that may be missing. -/
  | optional
  | expression (level : Level)
  /-- So many expressions with commas between them, one at least. -/
  | expressions (count : Nat)
  /-- So many expressions with commas between them. -/
  | listing (count : Nat)

/-- What a derivation of a nonterminal means. -/
@[reducible]
def Nonterminal.Tree : Nonterminal → Type
  | program => Program
  | declarations => List Stmt
  | declaration => Stmt
  | «variable» => Stmt
  | function => FunDecl
  | methods => List FunDecl
  | statement _ => Stmt
  | loopStart => Option Stmt
  | optional => Option Expr
  | expression _ => Expr
  | expressions _ => List Expr
  | listing _ => List Expr

/-! ## Operators and words -/

/-- The level of the operands of a level of left-associative operators, loosest first: `or`, `and`, equality, then the
ternary between equality and comparison, sums, products, and the prefix signs. -/
def operandLevel : InfixLevel → Level
  | .or => .between .and
  | .and => .between .equality
  | .equality => .ternary
  | .comparison => .between .term
  | .term => .between .factor
  | .factor => .unary

/-- The level of an operator between operands. -/
def levelOf : InfixOp → InfixLevel
  | .logical .or => .or
  | .logical .and => .and
  | .binary .equal => .equality
  | .binary .notEqual => .equality
  | .binary .lessThan => .comparison
  | .binary .lessThanEqual => .comparison
  | .binary .greaterThan => .comparison
  | .binary .greaterThanEqual => .comparison
  | .binary .add => .term
  | .binary .subtract => .term
  | .binary .multiply => .factor
  | .binary .divide => .factor

/-- The token that writes an operator between operands. -/
def infixToken : InfixOp → Token
  | .logical .or => .keyword .orWord
  | .logical .and => .keyword .andWord
  | .binary .equal => .symbol .equalEqual
  | .binary .notEqual => .symbol .bangEqual
  | .binary .lessThan => .symbol .less
  | .binary .lessThanEqual => .symbol .lessEqual
  | .binary .greaterThan => .symbol .greater
  | .binary .greaterThanEqual => .symbol .greaterEqual
  | .binary .add => .symbol .plus
  | .binary .subtract => .symbol .minus
  | .binary .multiply => .symbol .star
  | .binary .divide => .symbol .slash

/-- The expression of an operator between operands. -/
def infixTree : InfixOp → Expr → Expr → Expr
  | .logical op, left, right => .logical left op right
  | .binary op, left, right => .binary left op right

/-- The token that writes a prefix sign. -/
def prefixToken : UnaryOp → Token
  | .not => .symbol .bang
  | .negative => .symbol .minus

/-- The expressions that are a single token, names apart. -/
inductive Atom where
  | yes
  | no
  | nil
  | this
  | number (x : Float)
  | string (s : String)

/-- The token of an atom. -/
def Atom.token : Atom → Token
  | yes => .keyword .trueWord
  | no => .keyword .falseWord
  | nil => .keyword .nilWord
  | this => .keyword .thisWord
  | number x => .number x
  | string s => .string s

/-- The expression of an atom. -/
def Atom.tree : Atom → Expr
  | yes => .literal (.boolean true)
  | no => .literal (.boolean false)
  | nil => .literal .nil
  | this => .this
  | number x => .literal (.number x)
  | string s => .literal (.string s)

/-- The most arguments of a call, and the most parameters of a function. -/
def mostArguments : Nat := 255

/-- Names with a comma before each. -/
def namesBehind (others : List String) : List Token :=
  others.flatMap fun name => [.symbol .comma, .identifier name]

/-- Names with commas between them. -/
def names : List String → List Token
  | [] => []
  | first :: others => .identifier first :: namesBehind others

/-- What a `for` loop means: a loop, whose rounds end with the increment, in a block with what starts it. -/
def forTree (start : Option Stmt) (test increment : Option Expr) (body : Stmt) : Stmt :=
  match start, increment with
  | none, none => .loop (test.getD (.literal (.boolean true))) body
  | none, some e => .loop (test.getD (.literal (.boolean true))) (.block [body, .expression e])
  | some s, none => .block [s, .loop (test.getD (.literal (.boolean true))) body]
  | some s, some e => .block [s, .loop (test.getD (.literal (.boolean true))) (.block [body, .expression e])]

/-! ## Productions -/

/-- The derivations of a nonterminal: one constructor for each production. -/
inductive Derivation : Nonterminal → Type where
  | program (body : Derivation .declarations) : Derivation .program
  | noDeclaration : Derivation .declarations
  | declarations (first : Derivation .declaration) (others : Derivation .declarations) : Derivation .declarations
  | variableDeclaration (v : Derivation .variable) : Derivation .declaration
  | functionDeclaration (f : Derivation .function) : Derivation .declaration
  | classDeclaration (name : String) (parent : Option String) (body : Derivation .methods) : Derivation .declaration
  | statement {ending : Ending} (s : Derivation (.statement ending)) : Derivation .declaration
  | uninitialized (name : String) : Derivation .variable
  | initialized (name : String) (value : Derivation (.expression .assignment)) : Derivation .variable
  | function (name : String) (parameters : List String) (few : parameters.length ≤ mostArguments)
      (body : Derivation .declarations) : Derivation .function
  | noMethod : Derivation .methods
  | methods (first : Derivation .function) (others : Derivation .methods) : Derivation .methods
  | expressionStatement (e : Derivation (.expression .assignment)) : Derivation (.statement .closed)
  | print (e : Derivation (.expression .assignment)) : Derivation (.statement .closed)
  | block (body : Derivation .declarations) : Derivation (.statement .closed)
  | breakLoop : Derivation (.statement .closed)
  | returnValue (value : Derivation .optional) : Derivation (.statement .closed)
  | ifThen {ending : Ending} (test : Derivation (.expression .assignment)) (branch : Derivation (.statement ending)) :
      Derivation (.statement .opened)
  | ifElse {ending : Ending} (test : Derivation (.expression .assignment)) (branch : Derivation (.statement .closed))
      (other : Derivation (.statement ending)) : Derivation (.statement ending)
  | whileLoop {ending : Ending} (test : Derivation (.expression .assignment)) (body : Derivation (.statement ending)) :
      Derivation (.statement ending)
  | forLoop {ending : Ending} (start : Derivation .loopStart) (test increment : Derivation .optional)
      (body : Derivation (.statement ending)) : Derivation (.statement ending)
  | startNothing : Derivation .loopStart
  | startVariable (v : Derivation .variable) : Derivation .loopStart
  | startExpression (e : Derivation (.expression .assignment)) : Derivation .loopStart
  | absent : Derivation .optional
  | present (e : Derivation (.expression .assignment)) : Derivation .optional
  | assignVariable (name : String) (value : Derivation (.expression .assignment)) :
      Derivation (.expression .assignment)
  | assignProperty (object : Derivation (.expression .call)) (name : String)
      (value : Derivation (.expression .assignment)) : Derivation (.expression .assignment)
  | assignElement (object : Derivation (.expression .call)) (position value : Derivation (.expression .assignment)) :
      Derivation (.expression .assignment)
  | unassigned (e : Derivation (.expression (.between .or))) : Derivation (.expression .assignment)
  | operation {level : InfixLevel} (op : InfixOp) (at_level : levelOf op = level)
      (left : Derivation (.expression (.between level))) (right : Derivation (.expression (operandLevel level))) :
      Derivation (.expression (.between level))
  | operand {level : InfixLevel} (e : Derivation (.expression (operandLevel level))) :
      Derivation (.expression (.between level))
  | choice (test ifTrue ifFalse : Derivation (.expression (.between .comparison))) : Derivation (.expression .ternary)
  | unconditional (e : Derivation (.expression (.between .comparison))) : Derivation (.expression .ternary)
  | signed (op : UnaryOp) (e : Derivation (.expression .unary)) : Derivation (.expression .unary)
  | unsigned (e : Derivation (.expression .call)) : Derivation (.expression .unary)
  | call {count : Nat} (callee : Derivation (.expression .call)) (arguments : Derivation (.listing count))
      (few : count ≤ mostArguments) : Derivation (.expression .call)
  | property (object : Derivation (.expression .call)) (name : String) : Derivation (.expression .call)
  | element (object : Derivation (.expression .call)) (position : Derivation (.expression .assignment)) :
      Derivation (.expression .call)
  | uncalled (e : Derivation (.expression .primary)) : Derivation (.expression .call)
  | atom (a : Atom) : Derivation (.expression .primary)
  | named (name : String) : Derivation (.expression .primary)
  | superMethod (method : String) : Derivation (.expression .primary)
  | group (e : Derivation (.expression .assignment)) : Derivation (.expression .primary)
  | list {count : Nat} (items : Derivation (.listing count)) : Derivation (.expression .primary)
  | lastExpression (e : Derivation (.expression .assignment)) : Derivation (.expressions 1)
  | moreExpressions {count : Nat} (e : Derivation (.expression .assignment))
      (others : Derivation (.expressions count)) : Derivation (.expressions (count + 1))
  | noExpression : Derivation (.listing 0)
  | someExpressions {count : Nat} (es : Derivation (.expressions count)) : Derivation (.listing count)

namespace Derivation

/-- The tokens that a derivation derives. -/
def tokens : {nt : Nonterminal} → Derivation nt → List Token
  | _, program body => body.tokens ++ [.eof]
  | _, noDeclaration => []
  | _, declarations first others => first.tokens ++ others.tokens
  | _, variableDeclaration v => v.tokens
  | _, functionDeclaration f => .keyword .funWord :: f.tokens
  | _, classDeclaration name none body =>
    .keyword .classWord :: .identifier name :: .symbol .leftBrace :: body.tokens ++ [.symbol .rightBrace]
  | _, classDeclaration name (some parent) body =>
    .keyword .classWord :: .identifier name :: .symbol .less :: .identifier parent :: .symbol .leftBrace ::
      body.tokens ++ [.symbol .rightBrace]
  | _, statement s => s.tokens
  | _, uninitialized name => [.keyword .varWord, .identifier name, .symbol .semicolon]
  | _, initialized name value =>
    .keyword .varWord :: .identifier name :: .symbol .equal :: value.tokens ++ [.symbol .semicolon]
  | _, function name parameters _ body =>
    .identifier name :: .symbol .leftParen :: names parameters ++
      .symbol .rightParen :: .symbol .leftBrace :: body.tokens ++ [.symbol .rightBrace]
  | _, noMethod => []
  | _, methods first others => first.tokens ++ others.tokens
  | _, expressionStatement e => e.tokens ++ [.symbol .semicolon]
  | _, print e => .keyword .printWord :: e.tokens ++ [.symbol .semicolon]
  | _, block body => .symbol .leftBrace :: body.tokens ++ [.symbol .rightBrace]
  | _, breakLoop => [.keyword .breakWord, .symbol .semicolon]
  | _, returnValue value => .keyword .returnWord :: value.tokens ++ [.symbol .semicolon]
  | _, ifThen test branch =>
    .keyword .ifWord :: .symbol .leftParen :: test.tokens ++ .symbol .rightParen :: branch.tokens
  | _, ifElse test branch other =>
    .keyword .ifWord :: .symbol .leftParen :: test.tokens ++
      .symbol .rightParen :: branch.tokens ++ .keyword .elseWord :: other.tokens
  | _, whileLoop test body =>
    .keyword .whileWord :: .symbol .leftParen :: test.tokens ++ .symbol .rightParen :: body.tokens
  | _, forLoop start test increment body =>
    .keyword .forWord :: .symbol .leftParen :: start.tokens ++ test.tokens ++
      .symbol .semicolon :: increment.tokens ++ .symbol .rightParen :: body.tokens
  | _, startNothing => [.symbol .semicolon]
  | _, startVariable v => v.tokens
  | _, startExpression e => e.tokens ++ [.symbol .semicolon]
  | _, absent => []
  | _, present e => e.tokens
  | _, assignVariable name value => .identifier name :: .symbol .equal :: value.tokens
  | _, assignProperty object name value =>
    object.tokens ++ .symbol .dot :: .identifier name :: .symbol .equal :: value.tokens
  | _, assignElement object position value =>
    object.tokens ++ .symbol .leftBracket :: position.tokens ++
      .symbol .rightBracket :: .symbol .equal :: value.tokens
  | _, unassigned e => e.tokens
  | _, operation op _ left right => left.tokens ++ infixToken op :: right.tokens
  | _, operand e => e.tokens
  | _, choice test ifTrue ifFalse =>
    test.tokens ++ .symbol .question :: ifTrue.tokens ++ .symbol .colon :: ifFalse.tokens
  | _, unconditional e => e.tokens
  | _, signed op e => prefixToken op :: e.tokens
  | _, unsigned e => e.tokens
  | _, call callee arguments _ =>
    callee.tokens ++ .symbol .leftParen :: arguments.tokens ++ [.symbol .rightParen]
  | _, property object name => object.tokens ++ [.symbol .dot, .identifier name]
  | _, element object position =>
    object.tokens ++ .symbol .leftBracket :: position.tokens ++ [.symbol .rightBracket]
  | _, uncalled e => e.tokens
  | _, atom a => [a.token]
  | _, named name => [.identifier name]
  | _, superMethod method => [.keyword .superWord, .symbol .dot, .identifier method]
  | _, group e => .symbol .leftParen :: e.tokens ++ [.symbol .rightParen]
  | _, list items => .symbol .leftBracket :: items.tokens ++ [.symbol .rightBracket]
  | _, lastExpression e => e.tokens
  | _, moreExpressions e others => e.tokens ++ .symbol .comma :: others.tokens
  | _, noExpression => []
  | _, someExpressions es => es.tokens

/-- What a derivation means. -/
def tree : {nt : Nonterminal} → Derivation nt → nt.Tree
  | _, program body => body.tree
  | _, noDeclaration => []
  | _, declarations first others => first.tree :: others.tree
  | _, variableDeclaration v => v.tree
  | _, functionDeclaration f => Stmt.funDecl f.tree
  | _, classDeclaration name parent body => Stmt.classDecl name parent body.tree
  | _, statement s => s.tree
  | _, uninitialized name => Stmt.varDecl name none
  | _, initialized name value => Stmt.varDecl name (some value.tree)
  | _, function name parameters _ body => FunDecl.mk name parameters body.tree
  | _, noMethod => []
  | _, methods first others => first.tree :: others.tree
  | _, expressionStatement e => Stmt.expression e.tree
  | _, print e => Stmt.print e.tree
  | _, block body => Stmt.block body.tree
  | _, breakLoop => Stmt.breakLoop
  | _, returnValue value => Stmt.returnValue value.tree
  | _, ifThen test branch => Stmt.conditional test.tree branch.tree none
  | _, ifElse test branch other => Stmt.conditional test.tree branch.tree (some other.tree)
  | _, whileLoop test body => Stmt.loop test.tree body.tree
  | _, forLoop start test increment body => forTree start.tree test.tree increment.tree body.tree
  | _, startNothing => none
  | _, startVariable v => some v.tree
  | _, startExpression e => some (Stmt.expression e.tree)
  | _, absent => none
  | _, present e => some e.tree
  | _, assignVariable name value => Expr.assign name value.tree
  | _, assignProperty object name value => Expr.set object.tree name value.tree
  | _, assignElement object position value => Expr.setIndex object.tree position.tree value.tree
  | _, unassigned e => e.tree
  | _, operation op _ left right => infixTree op left.tree right.tree
  | _, operand e => e.tree
  | _, choice test ifTrue ifFalse => Expr.ternary test.tree ifTrue.tree ifFalse.tree
  | _, unconditional e => e.tree
  | _, signed op e => Expr.unary op e.tree
  | _, unsigned e => e.tree
  | _, call callee arguments _ => Expr.call callee.tree arguments.tree
  | _, property object name => Expr.get object.tree name
  | _, element object position => Expr.index object.tree position.tree
  | _, uncalled e => e.tree
  | _, atom a => a.tree
  | _, named name => Expr.variable name
  | _, superMethod method => Expr.super method
  | _, group e => Expr.group e.tree
  | _, list items => Expr.list items.tree
  | _, lastExpression e => [e.tree]
  | _, moreExpressions e others => e.tree :: others.tree
  | _, noExpression => []
  | _, someExpressions es => es.tree

/-- What is assigned to a property stands behind the property. -/
theorem tokens_assignProperty (object : Derivation (.expression .call)) (name : String)
    (value : Derivation (.expression .assignment)) :
    (assignProperty object name value).tokens = (property object name).tokens ++ .symbol .equal :: value.tokens := by
  simp [tokens]

/-- What is assigned to an element stands behind the element. -/
theorem tokens_assignElement (object : Derivation (.expression .call))
    (position value : Derivation (.expression .assignment)) :
    (assignElement object position value).tokens =
      (element object position).tokens ++ .symbol .equal :: value.tokens := by
  simp [tokens]

/-- The tokens of a `for` loop, by what is read at once. -/
theorem tokens_forLoop {ending : Ending} (start : Derivation .loopStart) (test increment : Derivation .optional)
    (body : Derivation (.statement ending)) :
    (forLoop start test increment body).tokens = .keyword .forWord :: .symbol .leftParen ::
      (start.tokens ++ ((test.tokens ++ [.symbol .semicolon]) ++
        ((increment.tokens ++ [.symbol .rightParen]) ++ body.tokens))) := by
  simp [tokens]

/-- The tokens of a function, by what is read at once. -/
theorem tokens_function (name : String) (parameters : List String) (few : parameters.length ≤ mostArguments)
    (body : Derivation .declarations) :
    (function name parameters few body).tokens = .identifier name :: .symbol .leftParen ::
      ((names parameters ++ [.symbol .rightParen]) ++
        .symbol .leftBrace :: (body.tokens ++ [.symbol .rightBrace])) := by
  simp [tokens]

end Derivation

end Lox.Grammar
