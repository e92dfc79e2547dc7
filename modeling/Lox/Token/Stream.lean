import Lox.Token.Scan

/-!
# Token streams

A text as its readers see it: one item at a time, with a look at the next one, and the end mark again and again once
everything else is consumed. What readers ask of a stream is the same whatever it keeps (`ItemSource`); a look may
change how it is kept.
-/

namespace Lox

/-- A stream of items, as it is read. -/
class ItemSource (σ : Type) where
  /-- Consumes the next item. -/
  next : σ → Item × σ
  /-- The next item, which stays. -/
  peek : σ → Item × σ
  /-- The place of the next item. -/
  peekPosition : σ → Position × σ
  /-- Whether only the end mark is left. -/
  isAtEof : σ → Bool × σ
  /-- Consumes the next item if it is a token with the given property. -/
  nextIf : σ → (Token → Bool) → Option Item × σ
  /-- Consumes the next item if it is a token from which something is got. -/
  nextIfSome {α : Type} : σ → (Token → Option α) → Option α × σ
  /-- Skips the items up to and including the next semicolon. -/
  skipPastSemicolon : σ → σ

/-- The items not yet consumed, and the place of the end mark that follows them. -/
structure TokenStream where
  upcoming : List Item
  ending : Position

namespace TokenStream

/-- The stream of a text. -/
def ofText (text : String) : TokenStream :=
  ⟨scanItems text, endPosition text⟩

/-- The next item, which stays. -/
def peek (s : TokenStream) : Item :=
  s.upcoming.head?.getD (Item.eof s.ending)

/-- The stream behind the next item. -/
def advance (s : TokenStream) : TokenStream :=
  { s with upcoming := s.upcoming.tail }

/-- Consumes the next item. -/
def next (s : TokenStream) : Item × TokenStream :=
  (s.peek, s.advance)

/-- The place of the next item. -/
def peekPosition (s : TokenStream) : Position :=
  s.peek.position

/-- Whether only the end mark is left. -/
def isAtEof (s : TokenStream) : Bool :=
  s.peek.token?.any Token.isEof

/-- Consumes the next item if it is a token from which `f` gets something. An error is never consumed. -/
def nextIfSome {α : Type} (s : TokenStream) (f : Token → Option α) : Option α × TokenStream :=
  match s.peek.token?.bind f with
  | some a => (some a, s.advance)
  | none => (none, s)

/-- Consumes the next item if it is a token with the given property. -/
def nextIf (s : TokenStream) (p : Token → Bool) : Option Item × TokenStream :=
  if s.peek.token?.any p then (some s.peek, s.advance) else (none, s)

/-- The stream behind the next semicolon. -/
def behindSemicolon (s : TokenStream) : TokenStream :=
  { s with upcoming := (s.upcoming.dropWhile fun i => !i.token?.any (Token.isSymbol .semicolon)).tail }

instance : ItemSource TokenStream where
  next := next
  peek s := (s.peek, s)
  peekPosition s := (s.peekPosition, s)
  isAtEof s := (s.isAtEof, s)
  nextIf := nextIf
  nextIfSome := nextIfSome
  skipPastSemicolon := behindSemicolon

variable {α : Type} (s : TokenStream)

@[simp] theorem source_next : ItemSource.next s = (s.peek, s.advance) := rfl

@[simp] theorem source_peek : ItemSource.peek s = (s.peek, s) := rfl

@[simp] theorem source_peekPosition : ItemSource.peekPosition s = (s.peekPosition, s) := rfl

@[simp] theorem source_isAtEof : ItemSource.isAtEof s = (s.isAtEof, s) := rfl

@[simp] theorem source_skipPastSemicolon : ItemSource.skipPastSemicolon s = s.behindSemicolon := rfl

@[simp] theorem source_nextIf (p : Token → Bool) : ItemSource.nextIf s p = s.nextIf p := rfl

@[simp] theorem source_nextIfSome (f : Token → Option α) : ItemSource.nextIfSome s f = s.nextIfSome f := rfl

end TokenStream

end Lox
