import Lox.Token.Scanner
import Lox.Token.Stream

/-!
# One item of lookahead

A stream that takes items from the scanner one by one, and keeps one that has been looked at but not consumed. Once the
scanner has nothing more to yield, there is an end mark again and again, at the place of the item that came last.
-/

namespace Lox

/-- What the scanner is still to yield, the item that has been looked at, and the place of the item that came last. -/
structure Lookahead where
  scanner : List Item
  peeked : Option Item
  lastPosition : Position

namespace Lookahead

/-- The stream of a text, before anything of it is scanned. -/
def ofText (text : String) : Lookahead :=
  ⟨scan text, none, {}⟩

/-- Takes an item from the scanner. -/
def pull (s : Lookahead) : Item × Lookahead :=
  match s.scanner with
  | item :: others => (item, { s with scanner := others, lastPosition := item.position })
  | [] => (Item.eof s.lastPosition, s)

/-- Consumes the next item. -/
def next (s : Lookahead) : Item × Lookahead :=
  match s.peeked with
  | some item => (item, { s with peeked := none })
  | none => s.pull

/-- The next item, which is kept. -/
def peek (s : Lookahead) : Item × Lookahead :=
  match s.peeked with
  | some item => (item, s)
  | none =>
    let (item, s) := s.pull
    (item, { s with peeked := some item })

/-- The place of the next item. -/
def peekPosition (s : Lookahead) : Position × Lookahead :=
  let (item, s) := s.peek
  (item.position, s)

/-- Whether only the end mark is left. -/
def isAtEof (s : Lookahead) : Bool × Lookahead :=
  let (item, s) := s.peek
  (item.token?.any Token.isEof, s)

/-- Consumes the next item if it is a token with the given property. -/
def nextIf (s : Lookahead) (p : Token → Bool) : Option Item × Lookahead :=
  let (item, s) := s.peek
  if item.token?.any p then
    let (taken, s) := s.next
    (if taken.token?.isSome then some taken else none, s)
  else (none, s)

/-- Consumes the next item if it is a token from which `f` gets something. -/
def nextIfSome {α : Type} (s : Lookahead) (f : Token → Option α) : Option α × Lookahead :=
  let (item, s) := s.peek
  match item.token?.bind f with
  | some a => (some a, s.next.2)
  | none => (none, s)

/-- Skips the items up to and including the next semicolon, and not the end mark, as long as there are steps. -/
def skipWithin : Nat → Lookahead → Lookahead
  | 0, s => s
  | n + 1, s =>
    let (item, s) := s.peek
    match item.content with
    | .ok (.symbol .semicolon) => s.next.2
    | .ok .eof => s
    | _ => skipWithin n s.next.2

/-- Skips the items up to and including the next semicolon, and not the end mark. More steps are allowed than items are
left. -/
def skipPastSemicolon (s : Lookahead) : Lookahead :=
  skipWithin (s.scanner.length + 2) s

instance : ItemSource Lookahead where
  next := next
  peek := peek
  peekPosition := peekPosition
  isAtEof := isAtEof
  nextIf := nextIf
  nextIfSome := nextIfSome
  skipPastSemicolon := skipPastSemicolon

end Lookahead

end Lox
