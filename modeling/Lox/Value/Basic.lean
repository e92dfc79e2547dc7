import Lox.Syntax.Basic

/-!
# Values

What expressions evaluate to. Numbers, strings, truth values and `nil` are values by themselves; everything else is
the identity of an object that lives in a heap.
-/

namespace Lox

/-- The identity of a scope. -/
structure ScopeId where
  index : Nat
deriving Repr, DecidableEq, Inhabited

/-- The identity of a sequence. -/
structure SequenceId where
  index : Nat
deriving Repr, DecidableEq

/-- The identity of a function. -/
structure FunctionId where
  index : Nat
deriving Repr, DecidableEq

/-- The identity of a class. -/
structure ClassId where
  index : Nat
deriving Repr, DecidableEq, Inhabited

/-- The identity of an instance. -/
structure InstanceId where
  index : Nat
deriving Repr, DecidableEq, Inhabited

/-- The identity of a bound method. -/
structure BoundMethodId where
  index : Nat
deriving Repr, DecidableEq

/-- The functions that every session may start with. -/
inductive Builtin where
  | now | len | first | rest | last | append | str | range
deriving Repr, DecidableEq

namespace Builtin

/-- The name under which a builtin is found. -/
def name : Builtin → String
  | now => "now"
  | len => "len"
  | first => "first"
  | rest => "rest"
  | last => "last"
  | append => "append"
  | str => "str"
  | range => "range"

/-- All builtins. -/
def all : List Builtin := [now, len, first, rest, last, append, str, range]

end Builtin

/-- What an expression evaluates to. -/
inductive Value where
  | number (x : Float)
  | string (s : String)
  | boolean (b : Bool)
  | nil
  | sequence (id : SequenceId)
  | function (id : FunctionId)
  | boundMethod (id : BoundMethodId)
  | builtin (b : Builtin)
  | classObject (id : ClassId)
  | instanceObject (id : InstanceId)
deriving Repr, Inhabited

/-- The kinds of values that messages tell apart. -/
inductive Kind where
  | number | string | boolean | nil | sequence | function | nativeFunction | classObject | instanceObject
deriving Repr, DecidableEq

/-- The name of a kind. -/
def Kind.name : Kind → String
  | number => "number"
  | string => "string"
  | boolean => "boolean"
  | nil => "nil"
  | sequence => "sequence"
  | function => "function"
  | nativeFunction => "native function"
  | classObject => "class"
  | instanceObject => "instance"

namespace Value

/-- The kind of a value. -/
def kind : Value → Kind
  | number _ => .number
  | string _ => .string
  | boolean _ => .boolean
  | nil => .nil
  | sequence _ => .sequence
  | function _ => .function
  | boundMethod _ => .function
  | builtin _ => .nativeFunction
  | classObject _ => .classObject
  | instanceObject _ => .instanceObject

/-- Whether a value counts as true: all but `false` and `nil` do. -/
def isTruthy : Value → Bool
  | boolean b => b
  | nil => false
  | _ => true

/-- Equality as programs see it: by content for numbers, strings, truth values and `nil`, by identity for the rest.
Values of different kinds are never equal. -/
def equals : Value → Value → Bool
  | number x, number y => x == y
  | string s, string t => s == t
  | boolean a, boolean b => a == b
  | nil, nil => true
  | sequence a, sequence b => a == b
  | function a, function b => a == b
  | boundMethod a, boundMethod b => a == b
  | builtin a, builtin b => a == b
  | classObject a, classObject b => a == b
  | instanceObject a, instanceObject b => a == b
  | _, _ => false

end Value

/-- The value of a literal. -/
def Literal.value : Literal → Value
  | number x => .number x
  | string s => .string s
  | boolean b => .boolean b
  | nil => .nil

/-- How many arguments a callable takes. -/
inductive Arity where
  | fixed (count : Nat)
  | variadic (least : Nat) (most : Option Nat)
deriving Repr, DecidableEq

namespace Arity

/-- Whether a number of arguments is right. -/
def accepts : Arity → Nat → Bool
  | fixed n, count => count = n
  | variadic least most, count => least ≤ count && most.all (count ≤ ·)

/-- The wording of an arity. -/
def text : Arity → String
  | fixed n => toString n
  | variadic least (some most) => toString least ++ " to " ++ toString most
  | variadic least none => "at least " ++ toString least

end Arity

/-- How many arguments a builtin takes. -/
def Builtin.arity : Builtin → Arity
  | now => .fixed 0
  | len => .fixed 1
  | first => .fixed 1
  | rest => .fixed 1
  | last => .fixed 1
  | append => .variadic 2 none
  | str => .fixed 1
  | range => .variadic 1 (some 3)

end Lox
