/-!
# The exact value of a number

Numbers are 64-bit binary floating-point values. This module opens one into its exact value, a sign, a whole
mantissa and a power of two, and answers from there whether it is whole.
-/

namespace Lox.Number

/-- What a floating-point value is, exactly. -/
inductive Exact where
  | notANumber
  | infinite (negative : Bool)
  /-- Plus or minus `mantissa * 2 ^ exponent`. -/
  | finite (negative : Bool) (mantissa : Nat) (exponent : Int)
deriving Repr, DecidableEq

/-- Reads the three fields of the binary format: one sign bit, eleven exponent bits, 52 fraction bits. -/
def Exact.ofFloat (x : Float) : Exact :=
  let bits := x.toBits.toNat
  let negative := bits ≥ Nat.pow 2 63
  let field : Nat := bits / Nat.pow 2 52 % Nat.pow 2 11
  let fraction := bits % Nat.pow 2 52
  if field = Nat.pow 2 11 - 1 then
    if fraction = 0 then .infinite negative else .notANumber
  else if field = 0 then .finite negative fraction (-1074)
  else .finite negative (Nat.pow 2 52 + fraction) ((field : Int) - 1075)

/-- An integer with the given sign and size. -/
def signed (negative : Bool) (size : Nat) : Int :=
  if negative then -size else size

/-- The integer that an exact value is, if it is one. Both zeros are the integer zero. -/
def Exact.whole? : Exact → Option Int
  | .notANumber => none
  | .infinite _ => none
  | .finite negative mantissa exponent =>
    if 0 ≤ exponent then some (signed negative (mantissa * Nat.pow 2 exponent.toNat))
    else if mantissa % Nat.pow 2 (-exponent).toNat = 0 then
      some (signed negative (mantissa / Nat.pow 2 (-exponent).toNat))
    else none

/-- The integer that a number is, if it is finite and has no fractional part. -/
def whole? (x : Float) : Option Int :=
  (Exact.ofFloat x).whole?

/-- The least 64-bit signed integer. -/
def int64Min : Int := -9223372036854775808

/-- The greatest 64-bit signed integer. -/
def int64Max : Int := 9223372036854775807

/-- Whether an integer fits 64 signed bits. -/
def fitsInt64 (i : Int) : Bool :=
  int64Min ≤ i && i ≤ int64Max

/-- The nearest 64-bit signed integer. -/
def saturate (i : Int) : Int :=
  max int64Min (min i int64Max)

end Lox.Number
