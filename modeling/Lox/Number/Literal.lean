/-!
# Reading numbers

`ofLiteral` is the value of a number token: digits, and perhaps a point and more digits. `ofText?` reads the wider
notation of data that is handed to a session: a sign, an exponent, and the names of the special values.
-/

namespace Lox.Number

/-- The natural number that decimal digits spell. -/
def ofDigits (digits : List Char) : Nat :=
  digits.foldl (fun n c => 10 * n + (c.toNat - '0'.toNat)) 0

/-- The number nearest to `digits * 10 ^ exponent`. Exponents so far out that the result is sure to be zero or
infinite are cut first. -/
def ofScaled (digits : Nat) (exponent : Int) : Float :=
  if digits = 0 then 0.0
  else
    let reach : Int := 400 + (digits.log2 : Int)
    let exponent := max (-reach) (min exponent reach)
    Float.ofScientific digits (exponent < 0) exponent.natAbs

/-- The value of a literal: whole digits, then a point and further digits if there are any. -/
def ofLiteral (literal : List Char) : Float :=
  let whole := literal.takeWhile Char.isDigit
  let fraction := (literal.drop (whole.length + 1)).takeWhile Char.isDigit
  ofScaled (ofDigits (whole ++ fraction)) (-fraction.length)

/-- The exponent that follows the digits, zero when there is none. -/
def exponent? : List Char → Option Int
  | [] => some 0
  | mark :: rest =>
    if mark = 'e' ∨ mark = 'E' then
      let (negative, digits) := match rest with
        | '-' :: digits => (true, digits)
        | '+' :: digits => (false, digits)
        | digits => (false, digits)
      if digits.isEmpty || !digits.all Char.isDigit then none
      else some (if negative then -(ofDigits digits : Int) else ofDigits digits)
    else none

/-- Digits with an optional point and exponent; at least one digit must stand beside the point. -/
def unsigned? (text : List Char) : Option Float :=
  let whole := text.takeWhile Char.isDigit
  let (fraction, rest) := match text.dropWhile Char.isDigit with
    | '.' :: rest => (rest.takeWhile Char.isDigit, rest.dropWhile Char.isDigit)
    | rest => ([], rest)
  if whole.isEmpty && fraction.isEmpty then none
  else (exponent? rest).map fun e => ofScaled (ofDigits (whole ++ fraction)) (e - fraction.length)

/-- The names of the values that digits cannot spell. -/
def special? (text : List Char) : Option Float :=
  match String.ofList (text.map Char.toLower) with
  | "inf" => some (1.0 / 0.0)
  | "infinity" => some (1.0 / 0.0)
  | "nan" => some (0.0 / 0.0)
  | _ => none

/-- The number that a text spells, if it spells one. -/
def ofText? (text : String) : Option Float :=
  let (negative, size) := match text.toList with
    | '-' :: size => (true, size)
    | '+' :: size => (false, size)
    | size => (false, size)
  ((special? size).or (unsigned? size)).map fun x => if negative then -x else x

end Lox.Number
