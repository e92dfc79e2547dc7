import Lox.Token.Scan

/-!
# The scanner

A text is scanned item by item, as items are asked for. The scanner keeps a place of its own and moves it along with
what it consumes, for each kind of lexeme in another way: by the length of a symbol, by the bytes of a number, by the
characters of a name, by a count of those of a comment; within strings and between blanks also to the next line. The
end mark is given out once.
-/

namespace Lox

/-- The symbol of a character that is no part of any other lexeme. -/
def Symbol.ofChar? : Char → Option Symbol
  | '(' => some leftParen
  | ')' => some rightParen
  | '{' => some leftBrace
  | '}' => some rightBrace
  | '[' => some leftBracket
  | ']' => some rightBracket
  | ',' => some comma
  | '.' => some dot
  | '-' => some minus
  | '+' => some plus
  | ';' => some semicolon
  | '*' => some star
  | '?' => some question
  | ':' => some colon
  | _ => none

/-- The symbol of a character, and the one that an equals sign behind it makes of it. -/
def Symbol.extensible? : Char → Option (Symbol × Symbol)
  | '!' => some (bang, bangEqual)
  | '=' => some (equal, equalEqual)
  | '<' => some (less, lessEqual)
  | '>' => some (greater, greaterEqual)
  | _ => none

/-- The characters not yet consumed, the place of the first of them, and whether the end mark was given out. -/
structure Scanner where
  rest : List Char
  position : Position := {}
  ended : Bool := false

namespace Scanner

/-- The scanner of a text. -/
def ofText (text : String) : Scanner :=
  { rest := text.toList }

/-! ## Moves -/

/-- Moves the place so many columns on. -/
def right (s : Scanner) (columns : Nat) : Scanner :=
  { s with position := ⟨s.position.line, s.position.column + columns⟩ }

/-- Moves the place to the start of the next line. -/
def down (s : Scanner) : Scanner :=
  { s with position := ⟨s.position.line + 1, 0⟩ }

/-- Consumes the next character if it is the given one. -/
def takeIf? (s : Scanner) (c : Char) : Option Scanner :=
  match s.rest with
  | d :: rest => if d = c then some { s with rest } else none
  | [] => none

/-- Consumes characters as long as they have a property. -/
def takeWhile (s : Scanner) (p : Char → Bool) : List Char × Scanner :=
  (s.rest.takeWhile p, { s with rest := s.rest.dropWhile p })

/-- Consumes a point with digits behind it, if there is one. -/
def takeFraction (s : Scanner) : List Char × Scanner :=
  match s.rest with
  | '.' :: d :: more =>
    if d.isDigit then
      let (decimals, s) := { s with rest := d :: more }.takeWhile Char.isDigit
      ('.' :: decimals, s)
    else ([], s)
  | _ => ([], s)

/-- Goes over blanks. -/
def skipBlanksFrom (s : Scanner) : List Char → Scanner
  | [] => { s with rest := [] }
  | c :: rest =>
    if c = ' ' || c = '\r' || c = '\t' then (s.right 1).skipBlanksFrom rest
    else if c = '\n' then s.down.skipBlanksFrom rest
    else { s with rest := c :: rest }

/-- Consumes blanks. -/
def skipBlanks (s : Scanner) : Scanner :=
  s.skipBlanksFrom s.rest

/-- Goes over characters up to the next quote and over the quote; without a quote, over all of them. -/
def throughQuoteFrom (s : Scanner) : List Char → Option (List Char) × Scanner
  | [] => (none, { s with rest := [] })
  | c :: rest =>
    if c = '"' then (some [], { s.right 1 with rest })
    else
      let (content, s) := (if c = '\n' then s.down else s.right 1).throughQuoteFrom rest
      (content.map (c :: ·), s)

/-! ## Lexemes -/

/-- Gives out a symbol of so many characters. -/
def symbol (s : Scanner) (symbol : Symbol) (start : Position) (length : Nat) : Item × Scanner :=
  (⟨start, .ok (.symbol symbol)⟩, s.right length)

/-- Gives out a symbol, or another one if an equals sign comes next. -/
def extensible (s : Scanner) (plain extended : Symbol) (start : Position) : Item × Scanner :=
  match s.takeIf? '=' with
  | some s => s.symbol extended start 2
  | none => s.symbol plain start 1

/-- Gives out the number that starts with a digit. -/
def number (s : Scanner) (first : Char) (start : Position) : Item × Scanner :=
  let (whole, s) := s.takeWhile Char.isDigit
  let (fraction, s) := s.takeFraction
  let literal := first :: (whole ++ fraction)
  (⟨start, .ok (.number (Number.ofLiteral literal))⟩, s.right (String.ofList literal).utf8ByteSize)

/-- Gives out the string behind a quote. -/
def string (s : Scanner) (start : Position) : Item × Scanner :=
  let (content?, s) := (s.right 1).throughQuoteFrom s.rest
  let content := match content? with
    | some content => .ok (.string (String.ofList content))
    | none => .error .unterminatedString
  (⟨start, content⟩, s)

/-- Gives out the name or keyword that starts with a character. -/
def name (s : Scanner) (first : Char) (start : Position) : Item × Scanner :=
  let (others, s) := s.takeWhile continuesName
  let name := String.ofList (first :: others)
  let token := match Keyword.ofWord? name with
    | some k => .keyword k
    | none => .identifier name
  (⟨start, .ok token⟩, s.right name.length)

/-- Consumes the rest of a comment. -/
def skipComment (s : Scanner) : Scanner :=
  let (comment, s) := s.takeWhile (· ≠ '\n')
  s.right (2 + comment.length)

/-- Consumes what a character starts that has been consumed itself. Blanks and comments give out no item. -/
def lexeme (s : Scanner) (c : Char) (start : Position) : Option Item × Scanner :=
  match Symbol.ofChar? c, Symbol.extensible? c with
  | some symbol, _ => (s.symbol symbol start 1).map some id
  | none, some (plain, extended) => (s.extensible plain extended start).map some id
  | none, none =>
    if c = '/' then
      match s.takeIf? '/' with
      | some s => (none, s.skipComment)
      | none => (s.symbol .slash start 1).map some id
    else if c = ' ' || c = '\r' || c = '\t' then (none, (s.right 1).skipBlanks)
    else if c = '\n' then (none, s.down.skipBlanks)
    else if c.isDigit then (s.number c start).map some id
    else if c = '"' then (s.string start).map some id
    else if startsName c then (s.name c start).map some id
    else (some ⟨start, .error .unrecognizedToken⟩, s.right 1)

theorem length_takeWhile_le (s : Scanner) (p : Char → Bool) : (s.takeWhile p).2.rest.length ≤ s.rest.length :=
  (List.dropWhile_sublist p).length_le

theorem length_takeFraction_le (s : Scanner) : s.takeFraction.2.rest.length ≤ s.rest.length := by
  unfold takeFraction
  split
  · next d more h =>
    split
    · rw [h]
      exact Nat.le_succ_of_le (length_takeWhile_le { s with rest := d :: more } Char.isDigit)
    · exact Nat.le_refl _
  · exact Nat.le_refl _

theorem length_skipBlanksFrom_le (s : Scanner) (cs : List Char) : (s.skipBlanksFrom cs).rest.length ≤ cs.length := by
  induction cs generalizing s with
  | nil => exact Nat.le_refl _
  | cons c rest ih =>
    unfold skipBlanksFrom
    split
    · exact Nat.le_succ_of_le (ih _)
    · split
      · exact Nat.le_succ_of_le (ih _)
      · exact Nat.le_refl _

theorem length_throughQuoteFrom_le (s : Scanner) (cs : List Char) :
    (s.throughQuoteFrom cs).2.rest.length ≤ cs.length := by
  induction cs generalizing s with
  | nil => exact Nat.le_refl _
  | cons c rest ih =>
    unfold throughQuoteFrom
    split
    · exact Nat.le_succ _
    · exact Nat.le_succ_of_le (ih _)

theorem length_takeIf?_le {s s' : Scanner} {c : Char} (h : s.takeIf? c = some s') : s'.rest.length ≤ s.rest.length := by
  unfold takeIf? at h
  split at h
  · next d rest hrest =>
    split at h
    · cases h
      rw [hrest]
      exact Nat.le_succ _
    · exact nomatch h
  · exact nomatch h

theorem length_extensible_le (s : Scanner) (plain extended : Symbol) (start : Position) :
    (s.extensible plain extended start).2.rest.length ≤ s.rest.length := by
  unfold extensible
  split
  · next s' h => exact (length_takeIf?_le h : s'.rest.length ≤ _)
  · exact Nat.le_refl _

theorem length_number_le (s : Scanner) (first : Char) (start : Position) :
    (s.number first start).2.rest.length ≤ s.rest.length :=
  Nat.le_trans (length_takeFraction_le _) (length_takeWhile_le s _)

theorem length_string_le (s : Scanner) (start : Position) : (s.string start).2.rest.length ≤ s.rest.length :=
  length_throughQuoteFrom_le (s.right 1) s.rest

theorem length_skipComment_le (s : Scanner) : s.skipComment.rest.length ≤ s.rest.length :=
  length_takeWhile_le s _

theorem length_lexeme_le (s : Scanner) (c : Char) (start : Position) :
    (s.lexeme c start).2.rest.length ≤ s.rest.length := by
  unfold lexeme
  split
  · exact Nat.le_refl _
  · exact length_extensible_le s _ _ start
  repeat' split
  · next hslash => exact Nat.le_trans (length_skipComment_le _) (length_takeIf?_le hslash)
  · exact Nat.le_refl _
  · exact length_skipBlanksFrom_le _ _
  · exact length_skipBlanksFrom_le _ _
  · exact length_number_le s c start
  · exact length_string_le s start
  · exact length_takeWhile_le _ _
  · exact Nat.le_refl _

theorem length_lexeme_lt {s : Scanner} {c : Char} {rest : List Char} (h : s.rest = c :: rest) (start : Position) :
    ({ s with rest }.lexeme c start).2.rest.length < s.rest.length := by
  rw [h]
  exact Nat.lt_succ_of_le (length_lexeme_le { s with rest } c start)

/-! ## Items -/

/-- The next item, and the scanner behind it; nothing once the end mark was given out. -/
def next (s : Scanner) : Option (Item × Scanner) :=
  match _hrest : s.rest with
  | [] => if s.ended then none else some (Item.eof s.position, { s with ended := true })
  | c :: rest =>
    match _hlexeme : { s with rest }.lexeme c s.position with
    | (some item, s') => some (item, s')
    | (none, s') => s'.next
termination_by s.rest.length
decreasing_by
  have hless := length_lexeme_lt _hrest s.position
  rwa [_hlexeme] at hless

/-- An item takes characters away, unless it is the end mark, which is given out once. -/
theorem next_shrinks {s s' : Scanner} {item : Item} (h : s.next = some (item, s')) :
    s'.rest.length < s.rest.length ∨ s'.rest.length = s.rest.length ∧ s.ended = false ∧ s'.ended = true := by
  fun_induction next s with
  | case1 => exact nomatch h
  | case2 s _ hopen =>
    cases h
    exact .inr ⟨rfl, Bool.eq_false_iff.mpr hopen, rfl⟩
  | case3 s c rest hrest item s₁ hlexeme =>
    cases h
    have hless := length_lexeme_lt hrest s.position
    rw [hlexeme] at hless
    exact .inl hless
  | case4 s c rest hrest s₁ hlexeme ih =>
    have hless := length_lexeme_lt hrest s.position
    rw [hlexeme] at hless
    exact .inl ((ih h).elim (Nat.lt_trans · hless) (·.1 ▸ hless))

/-- Every item that is still to come. -/
def items (s : Scanner) : List Item :=
  match _hnext : s.next with
  | some (item, s) => item :: s.items
  | none => []
termination_by (s.rest.length, if s.ended then 0 else 1)
decreasing_by
  rcases next_shrinks _hnext with hless | ⟨heq, hopen, hended⟩
  · exact .left _ _ hless
  · rw [heq, hopen, hended]
    exact .right _ Nat.zero_lt_one

end Scanner

/-- Every item of a text: its tokens and errors in order, then the end mark. -/
def scan (text : String) : List Item :=
  (Scanner.ofText text).items

end Lox
