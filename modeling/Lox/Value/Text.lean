import Lox.Heap.Basic
import Lox.Number.Text

/-!
# Values as text

What `print` shows of a value. A sequence shows its elements; one that is met again among its own elements, directly or
further inside, shows as `[...]`. The sequences that are being written are noted as they are opened, and struck off as
they are closed.
-/

namespace Lox

/-- A text so far, and the sequences that are open at its end, innermost first. -/
structure Writing where
  text : String := ""
  opened : List SequenceId := []

namespace Writing

/-- Goes on with a text. -/
def put (w : Writing) (s : String) : Writing := { w with text := w.text ++ s }

/-- Goes on to the element of a position: all but the first have a comma before them. -/
def separate (w : Writing) (position : Nat) : Writing := if position > 0 then w.put ", " else w

/-- Opens a sequence. -/
def enter (w : Writing) (id : SequenceId) : Writing := { w with opened := id :: w.opened }

/-- Closes the sequence that was opened last. -/
def leave (w : Writing) : Writing := { w with opened := w.opened.tail }

end Writing

namespace Heap

/-- The text of a value without what is in it. -/
def label (h : Heap) : Value → String
  | .number x => Number.text x
  | .string s => s
  | .boolean b => if b then "true" else "false"
  | .nil => "nil"
  | .function f => "<fn " ++ (h.function f).declaration.name ++ ">"
  | .boundMethod b => "<fn " ++ (h.function (h.boundMethod b).method).declaration.name ++ ">"
  | .builtin b => "<native fn " ++ b.name ++ ">"
  | .classObject c => "<class " ++ (h.classOf c).name ++ ">"
  | .instanceObject i => "<" ++ (h.classOf (h.instanceOf i).ofClass).name ++ " instance>"
  | .sequence _ => "[...]"

/-- Writes a value, a sequence by `sequence`. -/
def writeBy (h : Heap) (sequence : SequenceId → Writing → Option Writing) (v : Value) (w : Writing) : Option Writing :=
  match v with
  | .sequence id => sequence id w
  | v => some (w.put (h.label v))

/-- Writes elements, the first of which has the given position, each by `one`. -/
def writeFrom (one : Value → Writing → Option Writing) : Nat → List Value → Writing → Option Writing
  | _, [], w => some w
  | position, v :: rest, w => (one v (w.separate position)).bind (writeFrom one (position + 1) rest)

/-- Writes a sequence, with at most so many sequences inside one another. -/
def writeSequence (h : Heap) : Nat → SequenceId → Writing → Option Writing
  | 0, _, _ => none
  | n + 1, id, w =>
    if w.opened.contains id then some (w.put (h.label (.sequence id)))
    else
      (writeFrom (h.writeBy (h.writeSequence n)) 0 (h.sequence id).toList ((w.enter id).put "[")).map fun w =>
        w.leave.put "]"

/-- Writes a value, with at most so many sequences inside one another. -/
def write (h : Heap) (n : Nat) : Value → Writing → Option Writing :=
  h.writeBy (h.writeSequence n)

/-- The text of a value. A sequence that is open is not opened again, so no more sequences are inside one another than
there are, but for one that shows as `[...]`. -/
def text (h : Heap) (v : Value) : String :=
  match h.write (h.sequences.size + 1) v {} with
  | some w => w.text
  | none => ""

/-- The text of a value with its kind. -/
def debugText (h : Heap) (v : Value) : String :=
  match v with
  | .string s => "Value::String('" ++ s ++ "')"
  | .number x => "Value::Number(" ++ Number.text x ++ ")"
  | .boolean b => "Value::Bool(" ++ (if b then "true" else "false") ++ ")"
  | .nil => "Value::Nil"
  | .sequence _ => "Value::List(" ++ h.text v ++ ")"
  | _ => "Value::" ++ v.kind.name ++ "(" ++ h.text v ++ ")"

end Heap

end Lox
