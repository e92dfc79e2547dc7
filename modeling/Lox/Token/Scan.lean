import Lox.Token.Basic
import Lox.Number.Literal
import Lox.Unicode.Letter
import Lox.Unicode.Numeral

/-!
# Scanning

One pass over the characters of a text. Where neither a blank nor a comment stands, the longest lexeme at that
place becomes an item; what the item holds is read from the lexeme alone. The pass then steps over the lexeme, one
character at a time, so that the position is always that of everything before it.
-/

namespace Lox

/-- The characters that separate tokens. -/
def isBlank (c : Char) : Bool :=
  c = ' ' || c = '\r' || c = '\t' || c = '\n'

/-- Whether a character may start a name. -/
def startsName (c : Char) : Bool :=
  Unicode.isLetter c || c = '_'

/-- Whether a character may stand inside a name. -/
def continuesName (c : Char) : Bool :=
  Unicode.isLetter c || Unicode.isNumeral c || c = '_'

/-- Whether a comment starts with `c` when `rest` follows it. -/
def startsComment (c : Char) (rest : List Char) : Bool :=
  c = '/' && rest.head? = some '/'

/-- The rest of a comment: everything before the end of the line. -/
def commentRest (rest : List Char) : List Char :=
  rest.takeWhile (· ≠ '\n')

/-- The digits behind the first one, and a point with digits if a digit follows the point. -/
def numberRest (rest : List Char) : List Char :=
  rest.takeWhile Char.isDigit ++
    match rest.dropWhile Char.isDigit with
    | '.' :: d :: more => if d.isDigit then '.' :: d :: more.takeWhile Char.isDigit else []
    | _ => []

/-- Everything up to the next quote, and the quote; without one, everything. -/
def stringRest (rest : List Char) : List Char :=
  rest.takeWhile (· ≠ '"') ++ (rest.dropWhile (· ≠ '"')).take 1

/-- The characters that belong to the lexeme that `c` starts, when `rest` follows it. -/
def lexemeRest (c : Char) (rest : List Char) : List Char :=
  if c = '!' || c = '=' || c = '<' || c = '>' then
    if rest.head? = some '=' then ['='] else []
  else if c.isDigit then numberRest rest
  else if c = '"' then stringRest rest
  else if startsName c then rest.takeWhile continuesName
  else []

/-- What a lexeme means. -/
def Token.ofLexeme (lexeme : List Char) : Except ScanError Token :=
  match Symbol.ofLexeme? lexeme with
  | some s => .ok (.symbol s)
  | none =>
    match lexeme with
    | [] => .error .unrecognizedToken
    | c :: rest =>
      if c.isDigit then .ok (.number (Number.ofLiteral lexeme))
      else if c = '"' then
        if rest.getLast? = some '"' then .ok (.string (String.ofList rest.dropLast))
        else .error .unterminatedString
      else if startsName c then
        let name := String.ofList lexeme
        match Keyword.ofWord? name with
        | some k => .ok (.keyword k)
        | none => .ok (.identifier name)
      else .error .unrecognizedToken

/-- The items of a text that starts at `p`, the end mark left out. The first `skip` characters belong to a lexeme or
comment that has been dealt with. -/
def scanFrom (p : Position) : Nat → List Char → List Item
  | _, [] => []
  | skip + 1, c :: rest => scanFrom (p.advance c) skip rest
  | 0, c :: rest =>
    if isBlank c then scanFrom (p.advance c) 0 rest
    else if startsComment c rest then scanFrom (p.advance c) (commentRest rest).length rest
    else
      let more := lexemeRest c rest
      ⟨p, Token.ofLexeme (c :: more)⟩ :: scanFrom (p.advance c) more.length rest

/-- The place where a text ends. -/
def endPosition (text : String) : Position :=
  Position.past {} text.toList

/-- The items of a text without the end mark. -/
def scanItems (text : String) : List Item :=
  scanFrom {} 0 text.toList

end Lox
