import Lox.Value.Operator

/-!
# Builtins

The functions on sequences and numbers that a session starts with. They may be called without a check of the
number of their arguments, so each says itself what it lacks.
-/

namespace Lox

namespace Number

/-- Whether `i` lies before `stop`, going by `step`. -/
def isBefore (stop step i : Int) : Bool :=
  (0 < step && i < stop) || (step < 0 && stop < i)

/-- The numbers from `i` on before `stop`, going by `step`, behind those collected. A number whose successor is no
64-bit integer is the last. -/
def progressionFrom (stop step i : Int) (collected : Array Value) : Array Value :=
  if isBefore stop step i then
    let collected := collected.push (.number (Float.ofInt i))
    if fitsInt64 (i + step) then progressionFrom stop step (i + step) collected else collected
  else collected
termination_by (if 0 < step then stop - i else i - stop).toNat
decreasing_by
  rename_i before _
  simp only [isBefore, Bool.or_eq_true, Bool.and_eq_true, decide_eq_true_eq] at before
  split <;> omega

/-- The numbers from `start` on before `stop`, going by `step`. -/
def progression (start stop step : Int) : Array Value :=
  progressionFrom stop step start #[]

end Number

namespace Builtin

/-- The argument of a number. -/
def argument (b : Builtin) (arguments : List Value) (n : Nat) : Except RuntimeError Value :=
  match arguments[n]? with
  | some v => .ok v
  | none => .error (.arity b.name b.arity arguments.length)

/-- The sequence that the first argument has to be. -/
def sequenceArgument (b : Builtin) (arguments : List Value) : Except RuntimeError SequenceId :=
  match b.argument arguments 0 with
  | .ok (.sequence id) => .ok id
  | .ok v => .error (.type (.sequenceExpected b v.kind))
  | .error e => .error e

/-- The 64-bit integer that an argument has to be. -/
def integer (b : Builtin) : Value → Except RuntimeError Int
  | .number x =>
    match Number.whole? x with
    | some i => if Number.fitsInt64 i then .ok i else .error (.type (.integerExpected b (Number.text x)))
    | none => .error (.type (.integerExpected b (Number.text x)))
  | v => .error (.type (.wholeExpected b v.kind))

/-- The integers that all arguments have to be. -/
def integers (b : Builtin) : List Value → Except RuntimeError (List Int)
  | [] => .ok []
  | v :: others =>
    match b.integer v with
    | .error e => .error e
    | .ok i => (b.integers others).map (i :: ·)

/-- The numbers of a range: up to a stop, from a start to a stop, or from a start to a stop by a step. -/
def rangeElements (bounds : List Int) : Except RuntimeError (Array Value) :=
  match bounds with
  | [stop] => .ok (Number.progression 0 stop 1)
  | [start, stop] => .ok (Number.progression start stop 1)
  | [start, stop, step] =>
    if step = 0 then .error (.type .zeroStep) else .ok (Number.progression start stop step)
  | _ => .error (.arity range.name range.arity bounds.length)

/-- What a builtin answers: a value there is already, or what is to become a new sequence. -/
inductive Answer where
  | value (v : Value)
  | elements (xs : Array Value)

/-- What a builtin answers when the clock shows `time`. The heap is read and not changed. -/
def run (b : Builtin) (time : Float) (arguments : List Value) (h : Heap) : Except RuntimeError Answer :=
  match b with
  | now => .ok (.value (.number time))
  | len =>
    match b.sequenceArgument arguments with
    | .ok id => .ok (.value (.number (Float.ofNat (h.sequence id).size)))
    | .error e => .error e
  | first =>
    match b.sequenceArgument arguments with
    | .ok id =>
      match (h.sequence id)[0]? with
      | some v => .ok (.value v)
      | none => .error (.emptyOperand b)
    | .error e => .error e
  | last =>
    match b.sequenceArgument arguments with
    | .ok id =>
      match (h.sequence id).back? with
      | some v => .ok (.value v)
      | none => .error (.emptyOperand b)
    | .error e => .error e
  | rest =>
    match b.sequenceArgument arguments with
    | .ok id =>
      let elements := h.sequence id
      if elements.isEmpty then .error (.emptyOperand b)
      else .ok (.elements (elements.extract 1 elements.size))
    | .error e => .error e
  | append =>
    match b.sequenceArgument arguments with
    | .ok id => .ok (.elements (h.sequence id ++ (arguments.drop 1).toArray))
    | .error e => .error e
  | str =>
    match b.argument arguments 0 with
    | .ok v => .ok (.value (.string (h.text v)))
    | .error e => .error e
  | range =>
    match b.integers arguments with
    | .ok bounds =>
      match rangeElements bounds with
      | .ok elements => .ok (.elements elements)
      | .error e => .error e
    | .error e => .error e

end Builtin

end Lox
