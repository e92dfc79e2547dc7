import Lox.Syntax.Basic
import Lox.Syntax.Parser

/-!
# Reading expressions

The grammar of expressions by levels, loosest first: assignment, the connectives, equality, the ternary, comparison,
sums, products, prefix signs, calls and accesses, and what stands on its own. `expressionAt` reads an expression of
one level. The first argument of every function bounds the depth of the reading.
-/

namespace Lox

/-- The most arguments of a call, and the most parameters of a function. -/
def maxArguments : Nat := 255

/-- The levels whose operators are written between operands and group to the left. -/
inductive InfixLevel where
  | or | and | equality | comparison | term | factor
deriving Repr, DecidableEq

/-- The levels of expressions. -/
inductive Level where
  | assignment
  | between (level : InfixLevel)
  | ternary
  | unary
  | call
  | primary
deriving Repr, DecidableEq

/-- An operator written between two operands. -/
inductive InfixOp where
  | binary (op : BinaryOp)
  | logical (op : LogicalOp)
deriving Repr, DecidableEq

/-- The expression of an operator and its operands. -/
def InfixOp.apply : InfixOp → Expr → Expr → Expr
  | binary op, left, right => .binary left op right
  | logical op, left, right => .logical left op right

namespace InfixLevel

/-- The level of the operands. -/
def operand : InfixLevel → Level
  | or => .between and
  | and => .between equality
  | equality => .ternary
  | comparison => .between term
  | term => .between factor
  | factor => .unary

/-- The operator that a token is at a level. -/
def operator? : InfixLevel → Token → Option InfixOp
  | or, .keyword .orWord => some (.logical .or)
  | and, .keyword .andWord => some (.logical .and)
  | equality, .symbol .equalEqual => some (.binary .equal)
  | equality, .symbol .bangEqual => some (.binary .notEqual)
  | comparison, .symbol .less => some (.binary .lessThan)
  | comparison, .symbol .lessEqual => some (.binary .lessThanEqual)
  | comparison, .symbol .greater => some (.binary .greaterThan)
  | comparison, .symbol .greaterEqual => some (.binary .greaterThanEqual)
  | term, .symbol .minus => some (.binary .subtract)
  | term, .symbol .plus => some (.binary .add)
  | factor, .symbol .star => some (.binary .multiply)
  | factor, .symbol .slash => some (.binary .divide)
  | _, _ => none

end InfixLevel

namespace Token

/-- The sign that a token is before an operand. -/
def unaryOp? : Token → Option UnaryOp
  | symbol .minus => some .negative
  | symbol .bang => some .not
  | _ => none

/-- Whether a token is a sign that stands between operands. -/
def isInfixSign : Token → Bool
  | symbol s => [InfixLevel.equality, .comparison, .term, .factor].any fun l => (l.operator? (symbol s)).isSome
  | _ => false

/-- The expression that a token is on its own. -/
def expression? : Token → Option Expr
  | keyword .trueWord => some (.literal (.boolean true))
  | keyword .falseWord => some (.literal (.boolean false))
  | keyword .nilWord => some (.literal .nil)
  | keyword .thisWord => some .this
  | string s => some (.literal (.string s))
  | number x => some (.literal (.number x))
  | identifier name => some (.variable name)
  | _ => none

end Token

/-- The two lists of expressions between delimiters. -/
inductive Listing where
  | arguments
  | elements
deriving Repr, DecidableEq

namespace Listing

/-- The symbol that ends a list. -/
def close : Listing → Symbol
  | arguments => .rightParen
  | elements => .rightBracket

/-- The fault of a list that is not ended. -/
def unclosed : Listing → Fault
  | arguments => .argumentsUnclosed
  | elements => .elementsUnclosed

/-- Whether one more is too many when there are `count` already. -/
def isFull (l : Listing) (count : Nat) : Bool :=
  l = arguments && maxArguments ≤ count

end Listing

open Lox.Parser

variable {σ : Type} [ItemSource σ]

mutual

/-- Reads an expression of a level. -/
def expressionAt : Nat → Level → ParserOn σ Expr
  | 0, _ => starve
  | n + 1, .assignment => do
    let target ← expressionAt n (.between .or)
    match ← takeSymbol? .equal with
    | none => pure target
    | some position =>
      let value ← expressionAt n .assignment
      match target.assignment? value with
      | some e => pure e
      | none =>
        report position .assignmentTargetInvalid
        pure target
  | n + 1, .between level => do
    let first ← expressionAt n level.operand
    operationsAfter n level first
  | n + 1, .ternary => do
    let test ← expressionAt n (.between .comparison)
    if ← takeSymbol .question then
      let ifTrue ← expressionAt n (.between .comparison)
      expectSymbol .colon .ternaryColonMissing
      let ifFalse ← expressionAt n (.between .comparison)
      pure (.ternary test ifTrue ifFalse)
    else pure test
  | n + 1, .unary => do
    match ← takeSome Token.unaryOp? with
    | some op =>
      let operand ← expressionAt n .unary
      pure (.unary op operand)
    | none => expressionAt n .call
  | n + 1, .call => do
    let callee ← expressionAt n .primary
    accessesAfter n callee
  | n + 1, .primary => do
    let item ← next
    match item.content with
    | .error e => fail item.position (.scan e)
    | .ok token =>
      match token.expression? with
      | some e => pure e
      | none =>
        match token with
        | .keyword .superWord =>
          expectSymbol .dot .superDotMissing
          let method ← expectIdentifier
          pure (.super method)
        | .symbol .leftParen =>
          let inner ← expressionAt n .assignment
          expectSymbol .rightParen .groupUnclosed
          pure (.group inner)
        | .symbol .leftBracket =>
          let items ← expressions n .elements
          pure (.list items)
        | _ =>
          if token.isInfixSign then
            -- The right operand is read for what there is to report about it.
            report item.position .leftOperandMissing
            let _ ← attempt (expressionAt n .assignment)
            panic
          else fail item.position .expressionExpected

/-- Reads the operators of a level and their right operands, as long as there are any. -/
def operationsAfter : Nat → InfixLevel → Expr → ParserOn σ Expr
  | 0, _, _ => starve
  | n + 1, level, left => do
    match ← takeSome level.operator? with
    | none => pure left
    | some op =>
      let right ← expressionAt n level.operand
      operationsAfter n level (op.apply left right)

/-- Reads calls, properties and positions, as long as there are any. -/
def accessesAfter : Nat → Expr → ParserOn σ Expr
  | 0, _ => starve
  | n + 1, object => do
    if ← takeSymbol .leftParen then
      let arguments ← expressions n .arguments
      accessesAfter n (.call object arguments)
    else if ← takeSymbol .dot then
      let property ← expectIdentifier
      accessesAfter n (.get object property)
    else if ← takeSymbol .leftBracket then
      let position ← expressionAt n .assignment
      expectSymbol .rightBracket .indexUnclosed
      accessesAfter n (.index object position)
    else pure object

/-- Reads a list behind its opening symbol, up to and including its closing one. -/
def expressions : Nat → Listing → ParserOn σ (List Expr)
  | 0, _ => starve
  | n + 1, listing => do
    if ← takeSymbol listing.close then pure []
    else expressionsFrom n listing 0

/-- Reads the expressions of a list of which `count` have been read, up to and including its closing symbol. -/
def expressionsFrom : Nat → Listing → Nat → ParserOn σ (List Expr)
  | 0, _, _ => starve
  | n + 1, listing, count => do
    reportIf (listing.isFull count) .argumentsTooMany
    let first ← expressionAt n .assignment
    if ← takeSymbol .comma then
      let others ← expressionsFrom n listing (count + 1)
      pure (first :: others)
    else
      expectSymbol listing.close listing.unclosed
      pure [first]

end

/-- Reads an expression. -/
def expression (n : Nat) : ParserOn σ Expr := expressionAt n .assignment

end Lox
