import Mathlib.Algebra.Order.Field.Rat
import Mathlib.Tactic.Ring
import Lox.Number.Exact

/-!
# The value of a number

A finite number is a rational number, which its sign, its mantissa and its exponent tell (`value?`). The fields that
`Exact.ofFloat` reads are these (`value?_ofFloat`), and a number is whole just if its value is an integer
(`whole?_eq_some_iff`).
-/

namespace Lox.Number

open Float.Model (UnpackedFloat Format)

/-- The factor of a sign. -/
def signFactor (negative : Bool) : ℚ :=
  if negative then -1 else 1

/-- Whether a sign is that of negative numbers. -/
def isNegative : UnpackedFloat.Sign → Bool
  | .negative => true
  | .positive => false

/-- The rational number that an unpacked number is, if it is finite. -/
def valueOfUnpacked : UnpackedFloat → Option ℚ
  | .infinity _ => none
  | .notANumber => none
  | .zero _ => some 0
  | .finite sign mantissa exponent _ => some (signFactor (isNegative sign) * mantissa * 2 ^ exponent)

/-- A finite unpacked number is what its parts tell. -/
theorem valueOfUnpacked_finite (sign : UnpackedFloat.Sign) (mantissa : Nat) (exponent : Int) (hpos : 0 < mantissa) :
    valueOfUnpacked (.finite sign mantissa exponent hpos) =
      some (signFactor (isNegative sign) * mantissa * 2 ^ exponent) :=
  rfl

/-- The rational number that a number is, if it is finite. -/
def value? (x : Float) : Option ℚ :=
  valueOfUnpacked x.toModel.unpack

/-- The rational number that an exact value is, if it is finite. -/
def Exact.value? : Exact → Option ℚ
  | .notANumber => none
  | .infinite _ => none
  | .finite negative mantissa exponent => some (signFactor negative * mantissa * 2 ^ exponent)

/-! ## The fields of the format -/

variable {b : BitVec 64}

/-- The fraction of the mantissa is in the lowest 52 bits. -/
theorem toNat_unpackMantissa : (@UnpackedFloat.unpackMantissa .binary64 b).toNat = b.toNat % 2 ^ 52 := by
  simp [UnpackedFloat.unpackMantissa]

/-- The exponent is in the eleven bits above. -/
theorem toNat_unpackExponent :
    (@UnpackedFloat.unpackExponent .binary64 b).toNat = b.toNat / 2 ^ 52 % 2 ^ 11 := by
  simp [UnpackedFloat.unpackExponent, Nat.shiftRight_eq_div_pow]

/-- The sign is the highest bit. -/
theorem toNat_unpackSign :
    (@UnpackedFloat.unpackSign .binary64 b).toNat = b.toNat / 2 ^ 63 % 2 := by
  show (b.extractLsb 63 63).toNat = _
  rw [BitVec.extractLsb_toNat, Nat.shiftRight_eq_div_pow]

/-- The highest bit is that of negative numbers. -/
theorem isNegative_ofBitVec :
    isNegative (UnpackedFloat.Sign.ofBitVec (@UnpackedFloat.unpackSign .binary64 b)) =
      decide (b.toNat ≥ 2 ^ 63) := by
  have hsign : @UnpackedFloat.unpackSign .binary64 b = 0#1 ↔ ¬b.toNat ≥ 2 ^ 63 := by
    rw [BitVec.toNat_eq, toNat_unpackSign]
    have hlt := b.isLt
    simp only [BitVec.toNat_ofNat]
    omega
  by_cases hnegative : b.toNat ≥ 2 ^ 63
  · rw [UnpackedFloat.Sign.ofBitVec, if_neg fun hzero => hsign.1 hzero hnegative, decide_eq_true hnegative]
    rfl
  · rw [UnpackedFloat.Sign.ofBitVec, if_pos (hsign.2 hnegative), decide_eq_false hnegative]
    rfl

/-- Above the fraction of a mantissa stands a one. -/
theorem toNat_append_unpackMantissa :
    (1#1 ++ @UnpackedFloat.unpackMantissa .binary64 b).toNat = 2 ^ 52 + b.toNat % 2 ^ 52 := by
  have hlt : (@UnpackedFloat.unpackMantissa .binary64 b).toNat < 2 ^ 52 := BitVec.isLt _
  rw [BitVec.toNat_append, ← Nat.shiftLeft_add_eq_or_of_lt hlt, toNat_unpackMantissa]
  rfl

/-- All bits of the exponent are ones in what is not finite. -/
theorem unpackExponent_eq_ones_iff :
    @UnpackedFloat.unpackExponent .binary64 b = -1#11 ↔ b.toNat / 2 ^ 52 % 2 ^ 11 = 2 ^ 11 - 1 := by
  rw [BitVec.toNat_eq, toNat_unpackExponent]
  rfl

/-- All bits of the exponent are zeros in the numbers next to zero. -/
theorem unpackExponent_eq_zero_iff :
    @UnpackedFloat.unpackExponent .binary64 b = 0#11 ↔ b.toNat / 2 ^ 52 % 2 ^ 11 = 0 := by
  rw [BitVec.toNat_eq, toNat_unpackExponent]
  rfl

/-- All bits of the fraction are zeros. -/
theorem unpackMantissa_eq_zero_iff : @UnpackedFloat.unpackMantissa .binary64 b = 0#52 ↔ b.toNat % 2 ^ 52 = 0 := by
  rw [BitVec.toNat_eq, toNat_unpackMantissa]
  rfl

/-- What the fields of a number tell is its value. -/
theorem value?_ofFloat (x : Float) : value? x = (Exact.ofFloat x).value? := by
  unfold Exact.ofFloat value? Float.Model.unpack UnpackedFloat.unpack
  obtain ⟨b, hb⟩ : ∃ b, x.toModel.toBits.toBitVec = b := ⟨_, rfl⟩
  have hbits : x.toBits.toNat = b.toNat := congrArg BitVec.toNat hb
  rw [hb, hbits, Nat.pow_eq, Nat.pow_eq, Nat.pow_eq]
  dsimp only
  by_cases hones : b.toNat / 2 ^ 52 % 2 ^ 11 = 2 ^ 11 - 1
  · -- Neither an infinite value nor none at all.
    rw [if_pos (unpackExponent_eq_ones_iff.2 hones), if_pos hones]
    split <;> split <;> rfl
  · rw [if_neg (mt unpackExponent_eq_ones_iff.1 hones), if_neg hones]
    by_cases hzero : b.toNat / 2 ^ 52 % 2 ^ 11 = 0
    · rw [if_pos (unpackExponent_eq_zero_iff.2 hzero), if_pos hzero]
      by_cases hfraction : b.toNat % 2 ^ 52 = 0
      · rw [dif_pos (unpackMantissa_eq_zero_iff.2 hfraction), Exact.value?, hfraction, Nat.cast_zero, mul_zero, zero_mul]
        rfl
      · rw [dif_neg (mt unpackMantissa_eq_zero_iff.1 hfraction), valueOfUnpacked_finite, Exact.value?, isNegative_ofBitVec,
          toNat_unpackMantissa, toNat_unpackExponent, hzero]
        rfl
    · rw [if_neg (mt unpackExponent_eq_zero_iff.1 hzero), if_neg hzero, valueOfUnpacked_finite, Exact.value?,
        isNegative_ofBitVec, toNat_append_unpackMantissa, toNat_unpackExponent]
      rfl

/-! ## Whole numbers -/

/-- An integer of a sign and a size, as a rational number. -/
theorem cast_signed (negative : Bool) (size : Nat) : ((signed negative size : Int) : ℚ) = signFactor negative * size := by
  cases negative <;> simp [signed, signFactor]

/-- The size of an integer of a sign and a size. -/
theorem natAbs_signed (negative : Bool) (size : Nat) : (signed negative size).natAbs = size := by
  cases negative <;> simp [signed]

/-- The integer that an exact value is said to be is its value. -/
theorem Exact.whole?_eq_some_iff {x : Exact} {i : Int} : x.whole? = some i ↔ x.value? = some (i : ℚ) := by
  cases x with
  | notANumber => simp [whole?, value?]
  | infinite negative => simp [whole?, value?]
  | finite negative mantissa exponent =>
    rw [whole?, value?, Nat.pow_eq, Nat.pow_eq]
    rcases lt_or_ge exponent 0 with hneg | hpos
    · obtain ⟨k, rfl⟩ : ∃ k : Nat, exponent = -k := ⟨(-exponent).toNat, by omega⟩
      have hpower : (2 : ℚ) ^ k ≠ 0 := pow_ne_zero k two_ne_zero
      rw [if_neg (Int.not_le.2 hneg), Int.neg_neg, Int.toNat_natCast, zpow_neg, zpow_natCast, Option.some_inj,
        mul_inv_eq_iff_eq_mul₀ hpower]
      by_cases hdvd : mantissa % 2 ^ k = 0
      · obtain ⟨q, rfl⟩ := Nat.dvd_of_mod_eq_zero hdvd
        have hvalue : signFactor negative * ((2 ^ k * q : Nat) : ℚ) = ((signed negative q : Int) : ℚ) * 2 ^ k := by
          rw [cast_signed]
          push_cast
          ring
        rw [if_pos hdvd, Nat.mul_div_cancel_left q (Nat.two_pow_pos k), hvalue, Option.some_inj,
          mul_left_inj' hpower, Int.cast_inj]
      · -- A mantissa that the power does not divide is no multiple of it, of whatever sign.
        rw [if_neg hdvd]
        constructor
        · intro hwhole
          cases hwhole
        · intro hvalue
          have hsigned : signed negative mantissa = i * 2 ^ k := by
            rw [← cast_signed] at hvalue
            exact_mod_cast hvalue
          have hsize : mantissa = i.natAbs * 2 ^ k := by
            rw [← natAbs_signed negative mantissa, hsigned, Int.natAbs_mul, Int.natAbs_pow]
            rfl
          exact absurd (Nat.mod_eq_zero_of_dvd ⟨i.natAbs, hsize.trans (Nat.mul_comm _ _)⟩) hdvd
    · obtain ⟨k, rfl⟩ := Int.eq_ofNat_of_zero_le hpos
      have hvalue : signFactor negative * mantissa * 2 ^ (k : Int) = ((signed negative (mantissa * 2 ^ k) : Int) : ℚ) := by
        rw [cast_signed, zpow_natCast]
        push_cast
        ring
      rw [if_pos hpos, Int.toNat_natCast, hvalue, Option.some_inj, Option.some_inj, Int.cast_inj]

/-- A number is whole just if its value is an integer. -/
theorem whole?_eq_some_iff {x : Float} {i : Int} : whole? x = some i ↔ value? x = some (i : ℚ) := by
  rw [value?_ofFloat]
  exact Exact.whole?_eq_some_iff

end Lox.Number
