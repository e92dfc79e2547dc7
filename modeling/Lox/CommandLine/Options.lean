import Lox.Machine.Basic

/-!
# The options of the command line

The arguments name at most one script and give the two numbers of the settings, each at most once. An argument that
may have to wait for its value, or whose value is not looked at yet, is pending; it is settled when the next known
option, the next plain argument or the end comes. What the arguments leave open the environment decides, and then the
defaults.
-/

namespace Lox.CommandLine

/-! ## Numbers -/

/-- Why a text is not the number of an option. -/
inductive NumberFault where
  | empty
  | digit
  | tooLarge
deriving Repr, DecidableEq

/-- The wording of a fault in a number. -/
def NumberFault.message : NumberFault → String
  | empty => "cannot parse integer from empty string"
  | digit => "invalid digit found in string"
  | tooLarge => "number too large to fit in target type"

/-- The largest number that an option takes. -/
def maxNumber : Nat := 18446744073709551615

/-- Reads further digits of a number. -/
def readDigits (n : Nat) : List Char → Except NumberFault Nat
  | [] => .ok n
  | c :: rest =>
    if !c.isDigit then .error .digit
    else if maxNumber < 10 * n + (c.toNat - '0'.toNat) then .error .tooLarge
    else readDigits (10 * n + (c.toNat - '0'.toNat)) rest

/-- Reads a number: digits, perhaps behind a plus sign. -/
def readNumber (text : String) : Except NumberFault Nat :=
  match text.toList with
  | [] => .error .empty
  | ['+'] => .error .digit
  | '+' :: digits => readDigits 0 digits
  | digits => readDigits 0 digits

/-! ## Options -/

/-- The options that take a number. -/
inductive NumberOption where
  | maxCallDepth
  | stackSize
deriving Repr, DecidableEq

namespace NumberOption

/-- The name of an option behind its two hyphens. -/
def name : NumberOption → String
  | maxCallDepth => "max-call-depth"
  | stackSize => "stack-size-mb"

/-- What stands for the value of an option. -/
def placeholder : NumberOption → String
  | maxCallDepth => "MAX_CALL_DEPTH"
  | stackSize => "STACK_SIZE_MB"

/-- The variable of the environment that stands in for an option. -/
def variableName (o : NumberOption) : String :=
  "TREELOX_" ++ o.placeholder

/-- The number of an option that is given nowhere. -/
def fallback : NumberOption → Nat
  | maxCallDepth => defaultMaxCallDepth
  | stackSize => 256

/-- An option as it is shown to its user. -/
def usage (o : NumberOption) : String :=
  "--" ++ o.name ++ " <" ++ o.placeholder ++ ">"

end NumberOption

/-- What can stand behind two hyphens. -/
inductive Flag where
  | number (o : NumberOption)
  | help
  | version
deriving Repr, DecidableEq

/-- The flag of a name. -/
def Flag.ofName? (name : String) : Option Flag :=
  if name = NumberOption.maxCallDepth.name then some (.number .maxCallDepth)
  else if name = NumberOption.stackSize.name then some (.number .stackSize)
  else if name = "help" then some .help
  else if name = "version" then some .version
  else none

/-- What the arguments and the environment settle. -/
structure Options where
  script : Option String
  maxCallDepth : Nat
  stackSizeMb : Nat
deriving Repr, DecidableEq

/-- The size of the stack in bytes, as far as a number can tell. -/
def Options.stackSizeBytes (o : Options) : Nat :=
  min (o.stackSizeMb * 1048576) maxNumber

/-- What the arguments ask for. -/
inductive Request where
  | run (options : Options)
  | help
  | version
deriving Repr, DecidableEq

/-- What can be wrong with the arguments or the environment. -/
inductive UsageError where
  | unknownArgument (text : String)
  | invalidNumber (option : NumberOption) (text : String) (fault : NumberFault)
  | missingValue (option : NumberOption)
  | emptyScript
  | repeated (option : NumberOption)
  | needlessValue (flag value : String)
deriving Repr, DecidableEq

/-- The wording of a usage error. -/
def UsageError.message : UsageError → String
  | unknownArgument text => "unexpected argument '" ++ text ++ "' found"
  | invalidNumber o text fault => "invalid value '" ++ text ++ "' for '" ++ o.usage ++ "': " ++ fault.message
  | missingValue o => "a value is required for '" ++ o.usage ++ "' but none was supplied"
  | emptyScript => "a value is required for '[SCRIPT]' but none was supplied"
  | repeated o => "the argument '" ++ o.usage ++ "' cannot be used multiple times"
  | needlessValue flag value => "unexpected value '" ++ value ++ "' for '--" ++ flag ++ "' found; no more were expected"

/-! ## Arguments -/

/-- An argument by its looks. -/
inductive Argument where
  /-- Two hyphens alone: what follows is plain. -/
  | separator
  /-- A name behind two hyphens, and the text behind an equals sign. -/
  | long (name : String) (value : Option String)
  /-- A letter behind a hyphen. What else follows never matters. -/
  | short (letter : Char)
  | plain
deriving Repr, DecidableEq

/-- Looks at an argument. A hyphen alone is plain. -/
def Argument.of (text : String) : Argument :=
  match text.toList with
  | ['-', '-'] => .separator
  | '-' :: '-' :: rest =>
    let name := String.ofList (rest.takeWhile (· ≠ '='))
    match rest.dropWhile (· ≠ '=') with
    | [] => .long name none
    | _ :: value => .long name (some (String.ofList value))
  | '-' :: letter :: _ => .short letter
  | _ => .plain

/-- An argument that is not settled yet. -/
inductive Pending where
  | number (o : NumberOption) (value : Option String)
  | script (path : String)
deriving Repr, DecidableEq

/-- What has been read of the arguments. -/
structure Given where
  script : Option String := none
  maxCallDepth : Option Nat := none
  stackSize : Option Nat := none
  pending : Option Pending := none
  /-- Whether a separator was read. -/
  separated : Bool := false
deriving Repr, DecidableEq

namespace Given

/-- The number given for an option. -/
def number? (g : Given) : NumberOption → Option Nat
  | .maxCallDepth => g.maxCallDepth
  | .stackSize => g.stackSize

/-- Gives the number of an option. -/
def withNumber (g : Given) (o : NumberOption) (n : Nat) : Given :=
  match o with
  | .maxCallDepth => { g with maxCallDepth := some n }
  | .stackSize => { g with stackSize := some n }

/-- Reads the value of an option that must not have been given before. -/
def accept (g : Given) (o : NumberOption) (text : String) : Except UsageError Given :=
  if (g.number? o).isSome then .error (.repeated o)
  else match readNumber text with
    | .ok n => .ok (g.withNumber o n)
    | .error fault => .error (.invalidNumber o text fault)

/-- Settles what is pending. -/
def settle (g : Given) : Except UsageError Given :=
  match g.pending with
  | none => .ok g
  | some (.number o none) => .error (.missingValue o)
  | some (.number o (some text)) => { g with pending := none }.accept o text
  | some (.script path) =>
    if path.isEmpty then .error .emptyScript else .ok { g with pending := none, script := some path }

/-- Whether a script was named. -/
def hasScript (g : Given) : Bool :=
  match g.pending with
  | some (.script _) => true
  | _ => g.script.isSome

/-- Takes a plain argument as the script, of which there is only one. -/
def takeScript (g : Given) (path : String) : Except UsageError Given :=
  if g.hasScript then .error (.unknownArgument path)
  else match g.settle with
    | .ok g => .ok { g with pending := some (.script path) }
    | .error e => .error e

/-- Takes a plain argument: as the value of the option just before it, or else as the script. -/
def takePlain (g : Given) (text : String) : Except UsageError Given :=
  match g.pending with
  | some (.number o none) => .ok { g with pending := some (.number o (some text)) }
  | _ => g.takeScript text

/-- Takes an option, with the value attached to it if there is one. -/
def takeNumber (g : Given) (o : NumberOption) (value : Option String) : Except UsageError Given :=
  match g.settle with
  | .error e => .error e
  | .ok g =>
    match value with
    | some text => g.accept o text
    | none => .ok { g with pending := some (.number o none) }

/-- The number of an option: as given, or else as the environment has it, or else the default. -/
def number (g : Given) (environment : String → Option String) (o : NumberOption) : Except UsageError Nat :=
  match g.number? o with
  | some n => .ok n
  | none =>
    match environment o.variableName with
    | none => .ok o.fallback
    | some text => (readNumber text).mapError (.invalidNumber o text)

/-- The options once all arguments are read. -/
def options (g : Given) (environment : String → Option String) : Except UsageError Options := do
  let g ← g.settle
  let maxCallDepth ← g.number environment .maxCallDepth
  let stackSizeMb ← g.number environment .stackSize
  return { script := g.script, maxCallDepth, stackSizeMb }

/-- Reads the rest of the arguments. A wish for help or for the version ends the reading, but is not heard before
what is pending is settled; an unknown argument is refused whatever is pending. -/
def readAll (environment : String → Option String) (g : Given) : List String → Except UsageError Request
  | [] => (g.options environment).map .run
  | text :: rest =>
    if g.separated then
      match g.takeScript text with
      | .ok g => readAll environment g rest
      | .error e => .error e
    else match Argument.of text with
      | .separator => readAll environment { g with separated := true } rest
      | .plain =>
        match g.takePlain text with
        | .ok g => readAll environment g rest
        | .error e => .error e
      | .short 'h' => g.settle.map fun _ => .help
      | .short 'V' => g.settle.map fun _ => .version
      | .short _ => .error (.unknownArgument text)
      | .long name value =>
        match Flag.ofName? name, value with
        | some (.number o), value =>
          match g.takeNumber o value with
          | .ok g => readAll environment g rest
          | .error e => .error e
        | some .help, none => g.settle.map fun _ => .help
        | some .version, none => g.settle.map fun _ => .version
        | some _, some value => .error (.needlessValue name value)
        | none, _ => .error (.unknownArgument text)

end Given

/-- Reads the arguments and the environment. -/
def readArguments (arguments : List String) (environment : String → Option String) : Except UsageError Request :=
  Given.readAll environment {} arguments

end Lox.CommandLine
