import Lox.Value.Text
import Lox.Value.Error

/-!
# Operators on values

Arithmetic, concatenation, equality and order, and the check of a position in a sequence.
-/

namespace Lox

/-- How two numbers compare; not at all if one is no number. -/
def Number.compare? (x y : Float) : Option Ordering :=
  if x < y then some .lt else if x == y then some .eq else if y < x then some .gt else none

/-- How two strings compare, by code points. -/
def compareStrings (s t : String) : Ordering :=
  if s < t then .lt else if s = t then .eq else .gt

/-- How two values compare: numbers with numbers and strings with strings, and nothing else. -/
def Value.compare? : Value → Value → Option Ordering
  | .number x, .number y => Number.compare? x y
  | .string s, .string t => some (compareStrings s t)
  | _, _ => none

/-- Whether a comparison holds for an order; the other operators never do. -/
def BinaryOp.holds : BinaryOp → Ordering → Bool
  | lessThan, o => o.isLT
  | lessThanEqual, o => o.isLE
  | greaterThan, o => o.isGT
  | greaterThanEqual, o => o.isGE
  | _, _ => false

/-- An order in which a comparison does not hold. -/
def BinaryOp.failing : BinaryOp → Ordering
  | lessThan => .gt
  | lessThanEqual => .gt
  | _ => .lt

/-- Whether two values are numbers one of which is no number. -/
def Value.isUnordered : Value → Value → Bool
  | number x, number y => x.isNaN || y.isNaN
  | _, _ => false

/-- The order that settles a comparison. Where a number that is no number is compared, this is one in which the
comparison does not hold. -/
def Value.order (op : BinaryOp) (left right : Value) : Except RuntimeError Ordering :=
  if left.isUnordered right then .ok op.failing
  else
    match left.compare? right with
    | some o => .ok o
    | none => .error (.type (.comparison op left.kind right.kind))

/-- The answer of a comparison. -/
def Value.comparison (op : BinaryOp) (left right : Value) : Except RuntimeError Bool :=
  (Value.order op left right).map op.holds

/-- An operation on two numbers. -/
def Value.arithmetic (op : BinaryOp) (f : Float → Float → Except RuntimeError Float) (left right : Value) :
    Except RuntimeError Value :=
  match left, right with
  | .number x, .number y => (f x y).map .number
  | _, _ => .error (.type (.arithmetic op left.kind right.kind))

/-- A quotient; there is none by zero. -/
def Number.quotient (x y : Float) : Except RuntimeError Float :=
  if y == 0.0 then .error .divideByZero else .ok (x / y)

/-- The sum of two numbers, or the texts of two values of which one at least is a string, joined. -/
def Heap.sum (h : Heap) (left right : Value) : Except RuntimeError Value :=
  match left, right with
  | .number x, .number y => .ok (.number (x + y))
  | .string s, _ => .ok (.string (s ++ h.text right))
  | _, .string t => .ok (.string (h.text left ++ t))
  | _, _ => .error (.type (.addition left.kind right.kind))

/-- The result of a binary operator. -/
def Heap.binary (h : Heap) (op : BinaryOp) (left right : Value) : Except RuntimeError Value :=
  match op with
  | .equal => .ok (.boolean (left.equals right))
  | .notEqual => .ok (.boolean (!left.equals right))
  | .lessThan => (Value.comparison op left right).map .boolean
  | .lessThanEqual => (Value.comparison op left right).map .boolean
  | .greaterThan => (Value.comparison op left right).map .boolean
  | .greaterThanEqual => (Value.comparison op left right).map .boolean
  | .add => h.sum left right
  | .subtract => Value.arithmetic op (fun x y => .ok (x - y)) left right
  | .multiply => Value.arithmetic op (fun x y => .ok (x * y)) left right
  | .divide => Value.arithmetic op Number.quotient left right

/-- The result of a unary operator. -/
def Value.unary (op : UnaryOp) (operand : Value) : Except RuntimeError Value :=
  match op, operand with
  | .not, v => .ok (.boolean (!v.isTruthy))
  | .negative, .number x => .ok (.number (-x))
  | .negative, v => .error (.type (.negation v.kind))

/-- Whether a connective is decided by a left operand. -/
def LogicalOp.isDecidedBy (op : LogicalOp) (left : Value) : Bool :=
  match op with
  | and => !left.isTruthy
  | or => left.isTruthy

/-- The slot of a sequence that a position denotes: a whole number from zero up to but not including the length. A
whole number out of range is reported as the nearest 64-bit integer. -/
def Heap.slot (h : Heap) (id : SequenceId) (position : Value) : Except RuntimeError Nat :=
  match position with
  | .number x =>
    match Number.whole? x with
    | some i =>
      let length := (h.sequence id).size
      if 0 ≤ i ∧ i < length then .ok i.toNat
      else .error (.indexOutOfRange (Number.saturate i) length)
    | none => .error (.type (.position (h.text position)))
  | _ => .error (.type (.position (h.text position)))

end Lox
