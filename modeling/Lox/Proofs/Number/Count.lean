import Lox.Value.Basic
import Mathlib

/-!
# Counts as numbers

A count is zero as a number just if it is zero (`ofNat_beq_zero`), however large it is: rounding keeps all bits of the
mantissa, so a number that is made of a positive count stays away from zero (`KeepsAway`).
-/

namespace Lox.Number

open Float.Model (UnpackedFloat Format totalExponent)
open Float.Model.UnpackedFloat

/-- An unpacked number that has all bits of its mantissa and no exponent below a bound, or is infinite. -/
def KeepsAway (low : Int) : UnpackedFloat → Prop
  | .infinity _ => True
  | .finite _ mantissa exponent _ => 2 ^ 52 ≤ mantissa ∧ mantissa < 2 ^ 53 ∧ low ≤ exponent
  | _ => False

variable {low e : Int} {m n : Nat} {s : Sign} {u : UnpackedFloat}

/-- A lower bound is a bound. -/
theorem KeepsAway.mono {low' : Int} (hu : KeepsAway low u) (hle : low' ≤ low) : KeepsAway low' u := by
  cases u with
  | finite s m e hpos => exact ⟨hu.1, hu.2.1, hle.trans hu.2.2⟩
  | _ => exact hu

/-! ## Rounding -/

/-- A shift by some bits divides by a power of two. -/
theorem mantissa_shiftRight (em : ExtendedMantissa) (k : Nat) : (em >>> k).mantissa = em.mantissa / 2 ^ k := by
  induction k with
  | zero => exact (Nat.div_one _).symm
  | succ k ih =>
    have hshift : (em >>> (k + 1)).mantissa = (em >>> k).mantissa / 2 := rfl
    rw [hshift, ih, Nat.div_div_eq_div_mul, Nat.pow_succ]

/-- A mantissa is the one that its accuracy comes with. -/
theorem mantissa_ofMantissaAndAccuracy (m : Nat) (a : Accuracy) :
    (ExtendedMantissa.ofMantissaAndAccuracy m a).mantissa = m := by
  cases a with
  | exact => rfl
  | inexact order => cases order <;> rfl

/-- Rounding adds one at most. -/
theorem roundedMantissa_bounds (em : ExtendedMantissa) :
    em.mantissa ≤ em.roundedMantissa ∧ em.roundedMantissa ≤ em.mantissa + 1 := by
  obtain ⟨m, roundBit, stickyBit⟩ := em
  cases roundBit <;> cases stickyBit <;>
    simp only [ExtendedMantissa.roundedMantissa, ExtendedMantissa.accuracy, Accuracy.roundToNearestEven] <;> omega

/-- A mantissa that is divided down to 53 bits has all of them. -/
theorem div_bounds (hm : 2 ^ 52 ≤ m) : 2 ^ 52 ≤ m / 2 ^ (m.log2 - 52) ∧ m / 2 ^ (m.log2 - 52) < 2 ^ 53 := by
  have hne : m ≠ 0 := by omega
  have hlog : 52 ≤ m.log2 := (Nat.le_log2 hne).2 hm
  constructor
  · rw [Nat.le_div_iff_mul_le (Nat.two_pow_pos _), ← Nat.pow_add, Nat.add_sub_cancel' hlog]
    exact Nat.log2_self_le hne
  · rw [Nat.div_lt_iff_lt_mul (Nat.two_pow_pos _), ← Nat.pow_add, show 53 + (m.log2 - 52) = m.log2 + 1 by omega]
    exact Nat.lt_log2_self

/-- The first step of rounding leaves all bits of the mantissa, and raises the exponent if anything. -/
theorem shiftToTargetExponent_bounds (hm : 2 ^ 52 ≤ m) (he : -1074 ≤ e) (a : Accuracy) :
    2 ^ 52 ≤ (shiftToTargetExponent .binary64 m e a).1.mantissa ∧
      (shiftToTargetExponent .binary64 m e a).1.mantissa < 2 ^ 53 ∧ e ≤ (shiftToTargetExponent .binary64 m e a).2 := by
  have hlog : 52 ≤ m.log2 := (Nat.le_log2 (by omega)).2 hm
  have hshift : (Format.binary64.targetExponent (totalExponent m e) - e).toNat = m.log2 - 52 := by
    simp only [Format.targetExponent, totalExponent, Format.mantissaBits, Format.minExponent]
    omega
  have hmantissa : (shiftToTargetExponent .binary64 m e a).1.mantissa = m / 2 ^ (m.log2 - 52) := by
    rw [shiftToTargetExponent, shiftToExponent, hshift, mantissa_shiftRight, mantissa_ofMantissaAndAccuracy]
  obtain ⟨hlower, hupper⟩ := div_bounds hm
  refine ⟨hmantissa ▸ hlower, hmantissa ▸ hupper, ?_⟩
  exact Int.le_add_of_nonneg_right (Int.natCast_nonneg _)

/-- What is rounded from a mantissa with enough bits keeps away from zero. -/
theorem keepsAway_roundWithAccuracy (hm : 2 ^ 52 ≤ m) (he : -1074 ≤ e) (a : Accuracy) :
    KeepsAway e (roundWithAccuracy .binary64 s m e a) := by
  obtain ⟨hfirst, -, hraised⟩ := shiftToTargetExponent_bounds hm he a
  have hrounded := (roundedMantissa_bounds (shiftToTargetExponent .binary64 m e a).1).1
  obtain ⟨hlower, hupper, hraised'⟩ :=
    shiftToTargetExponent_bounds (hfirst.trans hrounded) (he.trans hraised) .exact
  rw [roundWithAccuracy]
  dsimp only
  rw [dif_neg (by omega)]
  exact ⟨hlower, hupper, hraised.trans hraised'⟩

/-! ## Packing -/

/-- An infinite number is unpacked as such. -/
theorem unpack_packedInfinity (s : Sign) :
    ∃ s', UnpackedFloat.unpack .binary64 (packedInfinity .binary64 s) = .infinity s' := by
  simp only [UnpackedFloat.unpack, packedInfinity, unpackExponent_packComponents, unpackMantissa_packComponents]
  exact ⟨_, rfl⟩

/-- A number that keeps away from zero does so when it has been packed. -/
theorem KeepsAway.pack (hu : KeepsAway low u) (hlow : -1074 ≤ low) :
    KeepsAway low (UnpackedFloat.unpack .binary64 (UnpackedFloat.pack .binary64 u)) := by
  cases u with
  | notANumber => exact hu.elim
  | zero s => exact hu.elim
  | infinity s =>
    obtain ⟨s', hs'⟩ := unpack_packedInfinity s
    rw [UnpackedFloat.pack, hs']
    trivial
  | finite s m e hpos =>
    obtain ⟨hlower, hupper, he⟩ := hu
    have hlog : m.log2 + 1 = Format.binary64.mantissaBits := by
      have hle : 52 ≤ m.log2 := (Nat.le_log2 hpos.ne').2 hlower
      have hlt : m.log2 < 53 := (Nat.log2_lt hpos.ne').2 hupper
      simp only [Format.mantissaBits]
      omega
    obtain ⟨b, hb⟩ : ∃ b, (e + Format.binary64.exponentBias + (52 : Nat)).toNat = b := ⟨_, rfl⟩
    have hbias : Format.binary64.exponentBias = 1023 := rfl
    rw [UnpackedFloat.pack]
    dsimp only
    rw [hb, if_pos hlog]
    by_cases hover : 2 ^ 11 ≤ b + 1
    · obtain ⟨s', hs'⟩ := unpack_packedInfinity s
      rw [if_pos hover, hs']
      trivial
    · have hexponent : (BitVec.ofNat 11 b).toNat = b := by
        rw [BitVec.toNat_ofNat, Nat.mod_eq_of_lt (by omega)]
      have hnotOnes : BitVec.ofNat 11 b ≠ -1#11 := by
        rw [Ne, BitVec.toNat_eq, hexponent]
        simp only [BitVec.reduceNeg, BitVec.toNat_ofNat]
        omega
      have hnotZero : BitVec.ofNat 11 b ≠ 0#11 := by
        rw [Ne, BitVec.toNat_eq, hexponent]
        simp only [BitVec.toNat_ofNat]
        omega
      have hmantissa : (1#1 ++ BitVec.ofNat 52 m).toNat = m := by
        rw [BitVec.toNat_append, ← Nat.shiftLeft_add_eq_or_of_lt (BitVec.isLt _), BitVec.toNat_ofNat]
        simp only [BitVec.toNat_ofNat, Nat.shiftLeft_eq]
        omega
      rw [if_neg hover]
      simp only [UnpackedFloat.unpack, unpackExponent_packComponents, unpackMantissa_packComponents, if_neg hnotOnes,
        if_neg hnotZero, KeepsAway, hmantissa, hexponent]
      exact ⟨hlower, hupper, by omega⟩

/-! ## Counts -/

/-- What keeps away from zero does so when it is multiplied by a number that is no fraction of the least one. -/
theorem KeepsAway.mul (hu : KeepsAway low u) (hm : 0 < m) (hlow : -1074 ≤ low + e) :
    KeepsAway (low + e) (UnpackedFloat.mul .binary64 u (.finite s m e hm)) := by
  cases u with
  | notANumber => exact hu.elim
  | zero s => exact hu.elim
  | infinity s => trivial
  | finite s' m' e' hpos =>
    obtain ⟨hlower, -, he⟩ := hu
    have hproduct : 2 ^ 52 ≤ m' * m := hlower.trans (Nat.le_mul_of_pos_right m' hm)
    have haway : KeepsAway (e' + e) (roundWithAccuracy .binary64 (s' * s) (m' * m) (e' + e) .exact) :=
      keepsAway_roundWithAccuracy hproduct (by omega) .exact
    exact haway.mono (by omega)

/-- Where a count is at most 53 bits long, it is rounded from a mantissa with enough bits. -/
theorem keepsAway_ofNat_small (hn : 0 < n) (hsmall : n < 2 ^ 53) :
    KeepsAway (-52) (UnpackedFloat.ofNat .binary64 n) := by
  have hlog : n.log2 < 53 := (Nat.log2_lt hn.ne').2 hsmall
  have hshift : (0 - Format.binary64.targetExponent (totalExponent n 0)).toNat = 52 - n.log2 := by
    simp only [Format.targetExponent, totalExponent, Format.mantissaBits, Format.minExponent]
    omega
  have hmantissa : 2 ^ 52 ≤ n <<< (52 - n.log2) := by
    rw [Nat.shiftLeft_eq]
    calc 2 ^ 52 = 2 ^ n.log2 * 2 ^ (52 - n.log2) := by rw [← Nat.pow_add, Nat.add_sub_cancel' (by omega)]
      _ ≤ n * 2 ^ (52 - n.log2) := Nat.mul_le_mul_right _ (Nat.log2_self_le hn.ne')
  have hcompare : compare (n : Int) 0 = .gt := compare_gt_iff_gt.2 (Int.natCast_pos.2 hn)
  rw [UnpackedFloat.ofNat, UnpackedFloat.ofInt, UnpackedFloat.normalize, hcompare]
  dsimp only
  rw [UnpackedFloat.round, Int.toNat_natCast, decreaseExponent]
  dsimp only
  rw [hshift]
  exact (keepsAway_roundWithAccuracy hmantissa (by omega) .exact).mono (by omega)

/-- So is a longer one, from a mantissa that is longer still. -/
theorem keepsAway_ofScientific (hlarge : 2 ^ 53 ≤ n) : KeepsAway (-53) (UnpackedFloat.ofScientific .binary64 n 0) := by
  have hn : n ≠ 0 := by omega
  have hupper : ¬(0 : Int) > 2 ^ Format.binary64.exponentBits := by decide
  have hlower : ¬(0 : Int) < -((2 ^ Format.binary64.exponentBits : Int) + n.log2) := by
    simp only
    omega
  have hrounded : UnpackedFloat.ofScientific .binary64 n 0 =
      roundWithAccuracy .binary64 .positive (n <<< 53 * 10 ^ (0 : Int).toNat) (-53) .exact := by
    rw [UnpackedFloat.ofScientific, dif_neg hn, if_neg hupper, if_neg hlower, if_pos le_rfl]
    rfl
  have hmantissa : 2 ^ 52 ≤ n <<< 53 * 10 ^ (0 : Int).toNat := by
    rw [Nat.shiftLeft_eq, Int.toNat_zero, Nat.pow_zero, Nat.mul_one]
    omega
  rw [hrounded]
  exact keepsAway_roundWithAccuracy hmantissa (by decide) .exact

/-- One, with all bits of its mantissa. -/
theorem unpack_one :
    (Float.ofBits 0x3FF0000000000000).toModel.unpack = .finite .positive (2 ^ 52) (-52) (Nat.two_pow_pos 52) := rfl

/-- A positive count keeps away from zero. -/
theorem keepsAway_ofNat (hn : 0 < n) : ∃ low, KeepsAway low (Float.ofNat n).toModel.unpack := by
  by_cases hsmall : n < 2 ^ 53
  · have hproduct : Float.ofNat n = n.toUInt64.toFloat * Float.ofBits 0x3FF0000000000000 := by
      change Float.ofScientific n false 0 = _
      rw [Float.ofScientific, dif_pos ⟨hsmall, by decide⟩]
      rfl
    have hcount : n.toUInt64.toNat = n := by
      rw [Nat.toUInt64, UInt64.toNat_ofNat', Nat.mod_eq_of_lt (by omega)]
    have hfactor : KeepsAway (-52) (n.toUInt64.toFloat).toModel.unpack := by
      change KeepsAway _ (UnpackedFloat.unpack _ (UnpackedFloat.pack _ (UnpackedFloat.ofNat _ n.toUInt64.toNat)))
      rw [hcount]
      exact (keepsAway_ofNat_small hn hsmall).pack (by decide)
    have hmul : KeepsAway (-52 + -52) (UnpackedFloat.mul .binary64 n.toUInt64.toFloat.toModel.unpack
        (Float.ofBits 0x3FF0000000000000).toModel.unpack) :=
      unpack_one ▸ hfactor.mul (Nat.two_pow_pos 52) (by decide)
    rw [hproduct]
    exact ⟨_, hmul.pack (by decide)⟩
  · have hrounded : Float.ofNat n = .ofModel (.ofScientific n 0) := by
      change Float.ofScientific n false 0 = _
      rw [Float.ofScientific, dif_neg fun h => hsmall h.1]
      rfl
    rw [hrounded]
    exact ⟨_, (keepsAway_ofScientific (Nat.le_of_not_lt hsmall)).pack (by decide)⟩

/-- What keeps away from zero is not equal to it. -/
theorem KeepsAway.compare_zero (hu : KeepsAway low u) (sign : Sign) : u.compare (.zero sign) ≠ some .eq := by
  cases u with
  | notANumber => exact hu.elim
  | zero s => exact hu.elim
  | infinity s => cases s <;> exact nofun
  | finite s m e hpos => cases s <;> exact nofun

/-- A count is zero as a number just if it is zero. -/
theorem ofNat_beq_zero (n : Nat) : (Float.ofNat n == 0.0) = decide (n = 0) := by
  have hzero : (0.0 : Float).toModel.unpack = .zero .positive := rfl
  rcases Nat.eq_zero_or_pos n with rfl | hn
  · rfl
  · obtain ⟨low, hlow⟩ := keepsAway_ofNat hn
    have hbeq : (Float.ofNat n == 0.0) =
        ((Float.ofNat n).toModel.unpack.compare (0.0 : Float).toModel.unpack == some .eq) := rfl
    rw [hbeq, hzero, decide_eq_false hn.ne', beq_eq_false_iff_ne]
    exact hlow.compare_zero .positive

end Lox.Number
