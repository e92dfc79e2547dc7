import Lox.Number.Shortest

/-!
# How numbers are written

A number is written with the fewest digits that read back, always positionally: no exponent, and no point
when it is whole. Zero keeps its sign.
-/

namespace Lox.Number

/-- The digits of `n` with `point` of them before the decimal point, padded with zeros where needed. -/
def placePoint (digits : List Char) (point : Int) : List Char :=
  if digits.length ≤ point then digits ++ List.replicate (point.toNat - digits.length) '0'
  else if 0 < point then digits.take point.toNat ++ '.' :: digits.drop point.toNat
  else '0' :: '.' :: List.replicate (-point).toNat '0' ++ digits

/-- Drops the zeros at the end. -/
def dropTrailingZeros (digits : List Char) : List Char :=
  (digits.reverse.dropWhile (· == '0')).reverse

/-- A decimal in positional notation. -/
def Decimal.characters (d : Decimal) : List Char :=
  let all := Nat.toDigits 10 d.digits
  placePoint (dropTrailingZeros all) (all.length + d.exponent)

/-- The text of a number. -/
def text (x : Float) : String :=
  match Exact.ofFloat x with
  | .notANumber => "NaN"
  | .infinite negative => if negative then "-inf" else "inf"
  | .finite negative mantissa exponent =>
    let sign := if negative then ['-'] else []
    let size := if mantissa = 0 then ['0'] else (Binary.shortest ⟨mantissa, exponent⟩).characters
    String.ofList (sign ++ size)

end Lox.Number
