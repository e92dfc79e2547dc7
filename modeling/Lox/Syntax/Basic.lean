/-!
# Programs as trees

Expressions, statements and programs. A `for` loop is not a statement of its own: `Stmt.forLoop` expresses it by a
loop and blocks.
-/

namespace Lox

/-- The operators with two operands, both always evaluated. -/
inductive BinaryOp where
  | equal | notEqual | lessThan | lessThanEqual | greaterThan | greaterThanEqual
  | add | subtract | multiply | divide
deriving Repr, DecidableEq

/-- The sign of a binary operator. -/
def BinaryOp.sign : BinaryOp → String
  | equal => "=="
  | notEqual => "!="
  | lessThan => "<"
  | lessThanEqual => "<="
  | greaterThan => ">"
  | greaterThanEqual => ">="
  | add => "+"
  | subtract => "-"
  | multiply => "*"
  | divide => "/"

/-- The operators with one operand. -/
inductive UnaryOp where
  | not | negative
deriving Repr, DecidableEq

/-- The sign of a unary operator. -/
def UnaryOp.sign : UnaryOp → String
  | not => "!"
  | negative => "-"

/-- The connectives, whose right operand is evaluated only if the left one leaves the answer open. -/
inductive LogicalOp where
  | and | or
deriving Repr, DecidableEq

/-- The word of a connective. -/
def LogicalOp.sign : LogicalOp → String
  | and => "and"
  | or => "or"

/-- The constants of a program. -/
inductive Literal where
  | number (value : Float)
  | string (content : String)
  | boolean (value : Bool)
  | nil
deriving Repr

/-- Expressions. -/
inductive Expr where
  | literal (value : Literal)
  | group (inner : Expr)
  | unary (op : UnaryOp) (operand : Expr)
  | binary (left : Expr) (op : BinaryOp) (right : Expr)
  | logical (left : Expr) (op : LogicalOp) (right : Expr)
  | ternary (test ifTrue ifFalse : Expr)
  | list (items : List Expr)
  | variable (name : String)
  | this
  | super (method : String)
  | assign (target : String) (value : Expr)
  | call (callee : Expr) (arguments : List Expr)
  | get (object : Expr) (property : String)
  | set (object : Expr) (property : String) (value : Expr)
  | index (object : Expr) (position : Expr)
  | setIndex (object : Expr) (position : Expr) (value : Expr)
deriving Inhabited

mutual

/-- Statements. -/
inductive Stmt where
  | varDecl (name : String) (init : Option Expr)
  | funDecl (declaration : FunDecl)
  | classDecl (name : String) (parent : Option String) (methods : List FunDecl)
  | expression (value : Expr)
  | print (value : Expr)
  | block (body : List Stmt)
  | conditional (test : Expr) (thenBranch : Stmt) (elseBranch : Option Stmt)
  | loop (test : Expr) (body : Stmt)
  | breakLoop
  | returnValue (value : Option Expr)

/-- The declaration of a function or method. -/
inductive FunDecl where
  | mk (name : String) (parameters : List String) (body : List Stmt)

end

instance : Inhabited Stmt := ⟨.breakLoop⟩

instance : Inhabited FunDecl := ⟨.mk "" [] []⟩

namespace FunDecl

/-- The name that is declared. -/
def name : FunDecl → String
  | mk name _ _ => name

/-- The names of the parameters, in order. -/
def parameters : FunDecl → List String
  | mk _ parameters _ => parameters

/-- The statements of the body. -/
def body : FunDecl → List Stmt
  | mk _ _ body => body

end FunDecl

/-- A program is run statement by statement. -/
abbrev Program := List Stmt

/-- The loop that runs `init` once, then `body` and after it `increment` as long as `test` holds. A missing test
always holds. The scope around `init` ends with the loop. -/
def Stmt.forLoop (init : Option Stmt) (test increment : Option Expr) (body : Stmt) : Stmt :=
  let round := match increment with
    | some e => Stmt.block [body, .expression e]
    | none => body
  let rounds := Stmt.loop (test.getD (.literal (.boolean true))) round
  match init with
  | some s => Stmt.block [s, rounds]
  | none => rounds

/-- The assignment of `value` to what an expression denotes, if it denotes something that can be assigned to: a
variable, a property or an element. -/
def Expr.assignment? (target value : Expr) : Option Expr :=
  match target with
  | .variable name => some (.assign name value)
  | .get object property => some (.set object property value)
  | .index object position => some (.setIndex object position value)
  | _ => none

end Lox
