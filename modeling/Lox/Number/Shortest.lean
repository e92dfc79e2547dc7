import Lox.Number.Exact

/-!
# The fewest digits that read back

A positive value `mantissa * 2 ^ exponent` stands for every real that rounds to it. `shortest` finds a decimal
with the fewest digits among those reals, and of several the one closest to the value; of two equally close ones it
takes the greater. All comparisons are exact, over natural numbers.
-/

namespace Lox.Number

/-- The decimal `digits * 10 ^ exponent`. -/
structure Decimal where
  digits : Nat
  exponent : Int
deriving Repr, DecidableEq

/-- A positive finite value, `mantissa * 2 ^ exponent`. -/
structure Binary where
  mantissa : Nat
  exponent : Int
deriving Repr, DecidableEq

namespace Binary

/-- Compares `a * 10 ^ i` with `b * 2 ^ j`. -/
def compareScaled (a : Nat) (i : Int) (b : Nat) (j : Int) : Ordering :=
  compare (a * Nat.pow 10 i.toNat * Nat.pow 2 (-j).toNat) (b * Nat.pow 2 j.toNat * Nat.pow 10 (-i).toNat)

/-- Below a power of two the neighbour is half as far away as above it, except at the bottom of the range. -/
def narrowBelow (x : Binary) : Bool :=
  x.mantissa = Nat.pow 2 52 && x.exponent > -1074

/-- Whether a decimal lies among the reals that round to `x`: at most half way to either neighbour, the half-way
points themselves included when the mantissa is even. Quarters of the last place keep the bounds whole. -/
def readsBack (x : Binary) (d : Decimal) : Bool :=
  let low := if x.narrowBelow then 4 * x.mantissa - 1 else 4 * x.mantissa - 2
  let high := 4 * x.mantissa + 2
  let even := x.mantissa % 2 = 0
  let aboveLow := compareScaled d.digits d.exponent low (x.exponent - 2)
  let belowHigh := compareScaled d.digits d.exponent high (x.exponent - 2)
  (aboveLow == .gt || (even && aboveLow == .eq)) && (belowHigh == .lt || (even && belowHigh == .eq))

/-- The least `k` with `x < 10 ^ k`: the place just above the leading digit. The binary logarithm gives it up to
one, and exact comparison settles the rest. -/
def scale (x : Binary) : Int :=
  let guess := (x.mantissa.log2 + x.exponent) * 30103 / 100000
  ([guess, guess + 1, guess + 2].find? fun k => compareScaled 1 k x.mantissa x.exponent == .gt).getD (guess + 3)

/-- The quotient `x / 10 ^ place` as numerator and denominator. -/
def dividedBy (x : Binary) (place : Int) : Nat × Nat :=
  (x.mantissa * Nat.pow 2 x.exponent.toNat * Nat.pow 10 (-place).toNat,
    Nat.pow 2 (-x.exponent).toNat * Nat.pow 10 place.toNat)

/-- The better of the two neighbours of `x` among the multiples of `10 ^ place`, if either reads back. -/
def onGrid? (x : Binary) (place : Int) : Option Decimal :=
  let (numerator, denominator) := x.dividedBy place
  let lower : Decimal := ⟨numerator / denominator, place⟩
  let upper : Decimal := ⟨numerator / denominator + 1, place⟩
  match x.readsBack lower, x.readsBack upper with
  | true, true => some (if 2 * numerator < (2 * lower.digits + 1) * denominator then lower else upper)
  | true, false => some lower
  | false, true => some upper
  | false, false => none

/-- The value itself as a decimal. -/
def exactDecimal (x : Binary) : Decimal :=
  ⟨x.mantissa * Nat.pow 2 x.exponent.toNat * Nat.pow 5 (-x.exponent).toNat, min x.exponent 0⟩

/-- The decimal with the fewest digits that reads back as `x`. Seventeen digits always do; were they ever not to,
the exact value would stand in. -/
def shortest (x : Binary) : Decimal :=
  let top := x.scale
  ((List.range 17).findSome? fun n : Nat => x.onGrid? (top - (n + 1))).getD x.exactDecimal

end Binary

end Lox.Number
