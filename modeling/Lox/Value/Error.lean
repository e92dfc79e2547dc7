import Lox.Value.Basic

/-!
# Runtime errors

What can go wrong while a program runs, as causes. The wording of each cause is made here and nowhere else.
-/

namespace Lox

/-- An operation met a kind of value on which it is not defined. -/
inductive TypeFault where
  | negation (got : Kind)
  | arithmetic (op : BinaryOp) (left right : Kind)
  | addition (left right : Kind)
  | comparison (op : BinaryOp) (left right : Kind)
  | propertyOf (got : Kind) (property : String)
  | fieldOf (got : Kind) (property : String)
  | elementOf (got : Kind)
  /-- A position that is no whole number; `text` shows it. -/
  | position (text : String)
  | superclass (name : String) (got : Kind)
  | superBinding (got : Kind)
  | thisBinding (got : Kind)
  | sequenceExpected (builtin : Builtin) (got : Kind)
  | wholeExpected (builtin : Builtin) (got : Kind)
  /-- A number that is no 64-bit integer; `text` shows it. -/
  | integerExpected (builtin : Builtin) (text : String)
  | zeroStep
deriving Repr, DecidableEq

/-- The wording of a type fault. -/
def TypeFault.message : TypeFault → String
  | negation got => "operand of '-' must be a number, got " ++ got.name
  | arithmetic op l r => "operands of '" ++ op.sign ++ "' must be numbers, got " ++ l.name ++ " and " ++ r.name
  | addition l r => "operands of '+' must be two numbers or include a string, got " ++ l.name ++ " and " ++ r.name
  | comparison op l r =>
    "operands of '" ++ op.sign ++ "' must be two numbers or two strings, got " ++ l.name ++ " and " ++ r.name
  | propertyOf got p => "only instances have properties, got " ++ got.name ++ " looking up '" ++ p ++ "'"
  | fieldOf got p => "only instances have fields, got " ++ got.name ++ " setting '" ++ p ++ "'"
  | elementOf got => "only sequences can be indexed, got " ++ got.name
  | position text => "sequence index must be a whole number, got " ++ text
  | superclass name got => "superclass of " ++ name ++ " must be a class, got " ++ got.name
  | superBinding got => "super must refer to a class, got " ++ got.name
  | thisBinding got => "this must refer to an instance, got " ++ got.name
  | sequenceExpected b got => b.name ++ " expects a sequence, got " ++ got.name
  | wholeExpected b got => b.name ++ " expects whole numbers, got " ++ got.name
  | integerExpected b text => b.name ++ " expects whole numbers within 64-bit range, got " ++ text
  | zeroStep => "range step must not be zero"

/-- Where a property was looked for. -/
inductive PropertyOwner where
  | instanceOf (className : String)
  | superclass (className : String)
deriving Repr, DecidableEq

/-- The wording of a place for properties. -/
def PropertyOwner.text : PropertyOwner → String
  | instanceOf name => name ++ " instance"
  | superclass name => "superclass " ++ name

/-- Why the system refused something. -/
structure SystemError where
  code : Nat
  reason : String
deriving Repr, DecidableEq

namespace SystemError

/-- There is no such file. -/
def notFound : SystemError := ⟨2, "No such file or directory"⟩

/-- A part of a path that has to be a directory is none. -/
def notDirectory : SystemError := ⟨20, "Not a directory"⟩

/-- What should be a file is a directory. -/
def isDirectory : SystemError := ⟨21, "Is a directory"⟩

/-- There is not enough of something. -/
def unavailable : SystemError := ⟨11, "Resource temporarily unavailable"⟩

/-- A number makes no sense. -/
def invalidArgument : SystemError := ⟨22, "Invalid argument"⟩

/-- The wording of a refusal. -/
def message (e : SystemError) : String :=
  e.reason ++ " (os error " ++ toString e.code ++ ")"

end SystemError

/-- Why a program stopped. -/
inductive RuntimeError where
  | unresolvedName (name : String)
  | unresolvedProperty (owner : PropertyOwner) (property : String)
  | arity (callee : String) (expected : Arity) (actual : Nat)
  | type (fault : TypeFault)
  | emptyOperand (builtin : Builtin)
  | divideByZero
  | indexOutOfRange (index : Int) (length : Nat)
  | notCallable (text : String)
  | invalidBreak
  | returnOutsideFunction
  | stackOverflow (limit : Nat)
  /-- A line could not be printed. -/
  | io (e : SystemError)
deriving Repr, DecidableEq

namespace RuntimeError

/-- The wording of an error. -/
def message : RuntimeError → String
  | unresolvedName name => "undefined variable '" ++ name ++ "'"
  | unresolvedProperty owner p => "undefined property '" ++ p ++ "' on " ++ owner.text
  | arity callee expected actual =>
    callee ++ " expected " ++ expected.text ++ " arguments but got " ++ toString actual
  | type fault => "type error: " ++ fault.message
  | emptyOperand b => b.name ++ " of an empty sequence"
  | divideByZero => "divide by zero"
  | indexOutOfRange index length =>
    "index " ++ toString index ++ " out of range for sequence of length " ++ toString length
  | notCallable text => "not callable: " ++ text
  | invalidBreak => "break outside of a loop"
  | returnOutsideFunction => "return outside of a function"
  | stackOverflow limit => "stack overflow: more than " ++ toString limit ++ " nested calls"
  | io e => "io error: " ++ e.message

/-- The name of the kind of an error. -/
def kindName : RuntimeError → String
  | unresolvedName _ => "UnresolvedName"
  | unresolvedProperty _ _ => "UnresolvedProperty"
  | arity _ _ _ => "Arity"
  | type _ => "TypeError"
  | emptyOperand _ => "EmptyOperand"
  | divideByZero => "DivideByZero"
  | indexOutOfRange _ _ => "IndexOutOfRange"
  | notCallable _ => "NotCallable"
  | invalidBreak => "InvalidBreak"
  | returnOutsideFunction => "ReturnOutsideFunction"
  | stackOverflow _ => "StackOverflow"
  | io _ => "Io"

end RuntimeError

end Lox
