import Lox.Token.Basic

/-!
# Diagnostics

What can be wrong with a text, and where. A diagnostic is a place and a fault; its wording is made here and nowhere
else.
-/

namespace Lox

/-- What may be wrong with the tokens of a text. -/
inductive Fault where
  /-- No token could be read. -/
  | scan (error : ScanError)
  | identifierExpected
  | expressionExpected
  | leftOperandMissing
  | assignmentTargetInvalid
  | variableUnterminated
  | functionUnparenthesized
  | parametersUnclosed
  | functionBodyMissing
  | classBodyMissing
  | classBodyUnclosed
  | blockUnclosed
  | printUnterminated
  | returnUnterminated
  | breakUnterminated
  | expressionUnterminated
  | ifUnparenthesized
  | ifConditionUnclosed
  | whileUnparenthesized
  | whileConditionUnclosed
  | forUnparenthesized
  | loopConditionUnterminated
  | forClausesUnclosed
  | ternaryColonMissing
  | indexUnclosed
  | argumentsUnclosed
  | argumentsTooMany
  | parametersTooMany
  | elementsUnclosed
  | groupUnclosed
  | superDotMissing
deriving Repr, DecidableEq

namespace Fault

/-- The wording of a fault. -/
def message : Fault → String
  | scan e => e.message
  | identifierExpected => "expected identifier"
  | expressionExpected => "expected an expression"
  | leftOperandMissing => "binary operator without a left-hand side"
  | assignmentTargetInvalid => "invalid assignment target"
  | variableUnterminated => "expected ';' after variable declaration"
  | functionUnparenthesized => "expected '(' after function name"
  | parametersUnclosed => "expect ')' after parameter list"
  | functionBodyMissing => "function bodies start with '\x7b'"
  | classBodyMissing => "class bodies start with '\x7b'"
  | classBodyUnclosed => "expected '\x7d' after class body"
  | blockUnclosed => "expected '\x7d' after block"
  | printUnterminated => "expected ';' after value"
  | returnUnterminated => "expected ';' after return value"
  | breakUnterminated => "expected ';' after break"
  | expressionUnterminated => "expected ';' after an expression"
  | ifUnparenthesized => "expected '(' after if"
  | ifConditionUnclosed => "expected ')' after if condition"
  | whileUnparenthesized => "expected '(' after while"
  | whileConditionUnclosed => "expected ')' after while condition"
  | forUnparenthesized => "expected '(' after for"
  | loopConditionUnterminated => "expected ';' after loop condition"
  | forClausesUnclosed => "expected ')' after for clauses"
  | ternaryColonMissing => "expected a ':' in ternary"
  | indexUnclosed => "expected ']' after index"
  | argumentsUnclosed => "expected closing delimiter after arguments"
  | argumentsTooMany => "too many arguments"
  | parametersTooMany => "too many parameters"
  | elementsUnclosed => "expected ']' after list elements"
  | groupUnclosed => "expected a ')'"
  | superDotMissing => "expected '.' after 'super'"

end Fault

/-- A fault and the place where it shows. -/
structure Diagnostic where
  position : Position
  fault : Fault
deriving Repr, DecidableEq

namespace Diagnostic

/-- The line that reports a diagnostic. -/
def text (d : Diagnostic) : String :=
  "error at " ++ d.position.text ++ ": " ++ d.fault.message

/-- The report of several diagnostics, a line for each. -/
def report (ds : List Diagnostic) : String :=
  String.join (ds.map fun d => d.text ++ "\n")

end Diagnostic

end Lox
