import Lox.Source.Diagnostic
import Lox.Token.Stream

/-!
# Parsers

A parser reads a construct from a stream of items. It ends in one of three ways: with the construct, in a panic because
what follows cannot be read, or starved of the steps it was given. Either of the first two comes with the rest of the
stream and the diagnostics reported on the way, in order; a construct may well be read and something reported about it.

The same parsers read from a lookahead, which scans as it goes, and from a token stream, which has the items it starts
with.
-/

namespace Lox

/-- How reading a construct from a stream of some kind ended. -/
inductive ParsedOn (σ α : Type) where
  | ok (value : α) (rest : σ) (reports : List Diagnostic)
  | panic (rest : σ) (reports : List Diagnostic)
  | starved

/-- How reading a construct from a token stream ended. -/
abbrev Parsed := ParsedOn TokenStream

/-- Adds what was reported before. -/
def ParsedOn.after {σ α : Type} (earlier : List Diagnostic) : ParsedOn σ α → ParsedOn σ α
  | ok a rest reports => ok a rest (earlier ++ reports)
  | panic rest reports => panic rest (earlier ++ reports)
  | starved => starved

/-- Reads a construct from a stream of some kind. -/
def ParserOn (σ α : Type) := σ → ParsedOn σ α

/-- Reads a construct from a token stream. -/
abbrev Parser := ParserOn TokenStream

namespace Parser

variable {σ α β : Type}

/-- Reads nothing. -/
@[always_inline, inline]
protected def pure (a : α) : ParserOn σ α := fun s => .ok a s []

/-- Reads one construct and then another that depends on it. -/
@[always_inline, inline]
protected def bind (p : ParserOn σ α) (f : α → ParserOn σ β) : ParserOn σ β := fun s =>
  match p s with
  | .ok a rest reports => (f a rest).after reports
  | .panic rest reports => .panic rest reports
  | .starved => .starved

instance : Monad (ParserOn σ) where
  pure := Parser.pure
  bind := Parser.bind

/-- Out of steps. -/
def starve : ParserOn σ α := fun _ => .starved

/-- Gives up on the construct. -/
def panic : ParserOn σ α := fun s => .panic s []

/-- Reports a fault at a place and goes on. -/
def report (position : Position) (fault : Fault) : ParserOn σ Unit := fun s => .ok () s [⟨position, fault⟩]

/-- Reports a fault at a place and gives up. -/
def fail (position : Position) (fault : Fault) : ParserOn σ α := fun s => .panic s [⟨position, fault⟩]

/-- Reads a construct if it can be read; a panic ends here. -/
def attempt (p : ParserOn σ α) : ParserOn σ (Option α) := fun s =>
  match p s with
  | .ok a rest reports => .ok (some a) rest reports
  | .panic rest reports => .ok none rest reports
  | .starved => .starved

variable [ItemSource σ]

/-- Reports a fault at the next item if a condition holds. -/
def reportIf (condition : Bool) (fault : Fault) : ParserOn σ Unit := fun s =>
  if condition then
    let (position, rest) := ItemSource.peekPosition s
    .ok () rest [⟨position, fault⟩]
  else .ok () s []

/-- Consumes the next item. -/
def next : ParserOn σ Item := fun s =>
  let (item, rest) := ItemSource.next s
  .ok item rest []

/-- Consumes the next token if `f` gets something from it. -/
def takeSome (f : Token → Option α) : ParserOn σ (Option α) := fun s =>
  let (taken, rest) := ItemSource.nextIfSome s f
  .ok taken rest []

/-- Consumes the next token if it is the given symbol, and tells its place. -/
def takeSymbol? (symbol : Symbol) : ParserOn σ (Option Position) := fun s =>
  let (taken, rest) := ItemSource.nextIf s (Token.isSymbol symbol)
  .ok (taken.map Item.position) rest []

/-- Consumes the next token if it is the given symbol. -/
def takeSymbol (symbol : Symbol) : ParserOn σ Bool := fun s =>
  let (taken, rest) := ItemSource.nextIf s (Token.isSymbol symbol)
  .ok taken.isSome rest []

/-- Consumes the next token if it is the given keyword. -/
def takeKeyword (keyword : Keyword) : ParserOn σ Bool := fun s =>
  let (taken, rest) := ItemSource.nextIf s (Token.isKeyword keyword)
  .ok taken.isSome rest []

/-- Whether the next item is a token with the given property. -/
def nextIs (p : Token → Bool) : ParserOn σ Bool := fun s =>
  let (item, rest) := ItemSource.peek s
  .ok (item.token?.any p) rest []

/-- Whether only the end mark is left. -/
def atEof : ParserOn σ Bool := fun s =>
  let (ended, rest) := ItemSource.isAtEof s
  .ok ended rest []

/-- Consumes the next item, which should be the given symbol; anything else is the given fault, at its place. -/
def expectSymbol (symbol : Symbol) (fault : Fault) : ParserOn σ Unit := do
  let item ← next
  match item.content with
  | .ok token => if token.isSymbol symbol then pure () else fail item.position fault
  | .error e => fail item.position (.scan e)

/-- Consumes the next item, which should be a name. -/
def expectIdentifier : ParserOn σ String := do
  let item ← next
  match item.content with
  | .ok (.identifier name) => pure name
  | _ => fail item.position .identifierExpected

/-- Skips the items up to and including the next semicolon. -/
def skipPastSemicolon : ParserOn σ Unit := fun s => .ok () (ItemSource.skipPastSemicolon s) []

end Parser

end Lox
