/-!
# Positions

A place in a text: how many lines lie before it, and how many characters of its own line. A text moves a position
character by character, so the position of any piece of a text is that of everything before it.
-/

namespace Lox

/-- A place between two characters of a text, counted from zero. -/
structure Position where
  line : Nat := 0
  column : Nat := 0
deriving Repr, DecidableEq, Inhabited

namespace Position

/-- The place behind one more character. -/
def advance (p : Position) (c : Char) : Position :=
  if c = '\n' then ⟨p.line + 1, 0⟩ else ⟨p.line, p.column + 1⟩

/-- The place behind a piece of text. -/
def past (p : Position) (piece : List Char) : Position :=
  piece.foldl advance p

/-- Line and column as a reader counts them, from one. -/
def text (p : Position) : String :=
  toString (p.line + 1) ++ ":" ++ toString (p.column + 1)

@[simp] theorem past_nil (p : Position) : p.past [] = p := rfl

@[simp] theorem past_cons (p : Position) (c : Char) (cs : List Char) :
    p.past (c :: cs) = (p.advance c).past cs := rfl

theorem past_append (p : Position) (a b : List Char) : p.past (a ++ b) = (p.past a).past b := by
  simp [past]

end Position

end Lox
