import Mathlib.Data.List.DropRight
import Mathlib.Tactic.FieldSimp
import Lox.Number.Text
import Lox.Proofs.Number.Value

/-!
# What the text of a number tells

The text of a number tells which number it is (`text_injective`). The digits and the point of a text spell a rational
number (`spelled`), and the text of a decimal spells the decimal (`spelled_characters`). The decimal that is written for
a number lies among the reals that round to it (`rounds_shortest`), and no real rounds to two numbers (`Rounds.unique`).
-/

namespace Lox.Number

open Float.Model (UnpackedFloat)

/-! ## Positional notation -/

/-- The natural number that some digits spell. -/
def digitsValue (digits : List Char) : ℕ :=
  Nat.ofDigitChars 10 digits 0

/-- The rational number that digits with a point among them spell. -/
def spelled (cs : List Char) : ℚ :=
  digitsValue (cs.filter (· ≠ '.')) / 10 ^ (cs.dropWhile (· ≠ '.')).tail.length

/-- The rational number that a decimal is. -/
def Decimal.value (d : Decimal) : ℚ :=
  d.digits * 10 ^ d.exponent

variable {digits whole fraction : List Char}

/-- Digits behind others move these up. -/
theorem digitsValue_append (a b : List Char) :
    digitsValue (a ++ b) = 10 ^ b.length * digitsValue a + digitsValue b := by
  rw [digitsValue, Nat.ofDigitChars_append, Nat.ofDigitChars_eq_ofDigitChars_zero]
  rfl

/-- Zeros spell nothing. -/
theorem digitsValue_zeros (k : ℕ) : digitsValue (List.replicate k '0') = 0 := by
  rw [digitsValue, Nat.ofDigitChars_replicate_zero, Nat.mul_zero]

/-- Without a point, the digits spell a natural number. -/
theorem spelled_whole (hwhole : '.' ∉ whole) : spelled whole = digitsValue whole := by
  have hne : ∀ c ∈ whole, decide (c ≠ '.') = true := fun c hc => decide_eq_true fun h => hwhole (h ▸ hc)
  rw [spelled, List.filter_eq_self.2 hne, List.dropWhile_eq_nil_iff.2 hne]
  simp

/-- The digits behind a point spell a fraction. -/
theorem spelled_point (hwhole : '.' ∉ whole) (hfraction : '.' ∉ fraction) :
    spelled (whole ++ '.' :: fraction) = digitsValue (whole ++ fraction) / 10 ^ fraction.length := by
  have hne {cs : List Char} (hcs : '.' ∉ cs) : ∀ c ∈ cs, decide (c ≠ '.') = true :=
    fun c hc => decide_eq_true fun h => hcs (h ▸ hc)
  rw [spelled, List.filter_append, List.filter_cons_of_neg (by decide), List.filter_eq_self.2 (hne hwhole),
    List.filter_eq_self.2 (hne hfraction), List.dropWhile_append, List.dropWhile_eq_nil_iff.2 (hne hwhole)]
  rfl

/-- Wherever the point is placed, it says how large the digits are. -/
theorem spelled_placePoint (hdigits : '.' ∉ digits) (point : ℤ) :
    spelled (placePoint digits point) = digitsValue digits * 10 ^ (point - digits.length) := by
  have hzeros (k : ℕ) : '.' ∉ List.replicate k '0' := fun h => absurd (List.eq_of_mem_replicate h) (by decide)
  have hten : (10 : ℚ) ≠ 0 := by norm_num
  rw [placePoint]
  split_ifs with hbehind hamong
  · -- The point is behind all digits, and zeros fill the gap.
    obtain ⟨k, hk⟩ : ∃ k : ℕ, point = digits.length + k := ⟨(point - digits.length).toNat, by omega⟩
    subst hk
    have hgap : ((digits.length + k : ℤ).toNat - digits.length) = k := by omega
    rw [hgap, spelled_whole (by simp [hdigits, hzeros]), digitsValue_append, digitsValue_zeros, List.length_replicate,
      add_sub_cancel_left, zpow_natCast]
    push_cast
    ring
  · -- The point is among the digits.
    obtain ⟨k, rfl⟩ : ∃ k : ℕ, point = k := ⟨point.toNat, by omega⟩
    have hk : k ≤ digits.length := by omega
    have hdrop : (digits.drop k).length = digits.length - k := List.length_drop
    have hexponent : (k : ℤ) - digits.length = -((digits.length - k : ℕ) : ℤ) := by omega
    have hbefore : '.' ∉ digits.take k := fun h => hdigits (List.mem_of_mem_take h)
    have hbehind : '.' ∉ digits.drop k := fun h => hdigits (List.mem_of_mem_drop h)
    rw [Int.toNat_natCast, spelled_point hbefore hbehind, List.take_append_drop, hdrop, hexponent, zpow_neg,
      zpow_natCast, div_eq_mul_inv]
  · -- The point is before all digits, behind a zero, and zeros fill the gap.
    obtain ⟨k, rfl⟩ : ∃ k : ℕ, point = -k := ⟨(-point).toNat, by omega⟩
    have hshape : '0' :: '.' :: List.replicate (-(-k : ℤ)).toNat '0' ++ digits =
        ['0'] ++ '.' :: (List.replicate k '0' ++ digits) := by
      rw [Int.neg_neg, Int.toNat_natCast]
      rfl
    have hexponent : -(k : ℤ) - digits.length = -((k + digits.length : ℕ) : ℤ) := by omega
    rw [hshape, spelled_point (by decide) (by simp [hdigits, hzeros]), List.length_append, List.length_replicate,
      hexponent, zpow_neg, zpow_natCast, div_eq_mul_inv]
    congr 2
    have hlead : ['0'] ++ (List.replicate k '0' ++ digits) = List.replicate (k + 1) '0' ++ digits := by
      rw [List.replicate_succ]
      rfl
    rw [hlead, digitsValue_append, digitsValue_zeros, Nat.mul_zero, Nat.zero_add]

/-- Only zeros and the point stand beside the digits. -/
theorem mem_placePoint {c : Char} {point : ℤ} (hc : c ∈ placePoint digits point) : c ∈ digits ∨ c = '0' ∨ c = '.' := by
  rw [placePoint] at hc
  split_ifs at hc
  · exact (List.mem_append.1 hc).imp_right fun hc => .inl (List.eq_of_mem_replicate hc)
  · rcases List.mem_append.1 hc with hc | hc
    · exact .inl (List.mem_of_mem_take hc)
    · exact (List.mem_cons.1 hc).elim (.inr ∘ .inr) (.inl ∘ List.mem_of_mem_drop)
  · rcases List.mem_append.1 hc with hc | hc
    · have hlead : c = '0' ∨ c = '.' ∨ c ∈ List.replicate (-point).toNat '0' := by simpa using hc
      rcases hlead with hc | hc | hc
      · exact .inr (.inl hc)
      · exact .inr (.inr hc)
      · exact .inr (.inl (List.eq_of_mem_replicate hc))
    · exact .inl hc

/-- What is left without the zeros at the end, and how many these are. -/
theorem exists_trailingZeros (digits : List Char) :
    ∃ k, digits = dropTrailingZeros digits ++ List.replicate k '0' := by
  refine ⟨(digits.reverse.takeWhile (· == '0')).length, ?_⟩
  have hzeros : digits.reverse.takeWhile (· == '0') =
      List.replicate (digits.reverse.takeWhile (· == '0')).length '0' :=
    List.eq_replicate_iff.2 ⟨rfl, fun c hc => by simpa using List.mem_takeWhile_imp hc⟩
  calc digits = (digits.reverse.takeWhile (· == '0') ++ digits.reverse.dropWhile (· == '0')).reverse := by
        rw [List.takeWhile_append_dropWhile, List.reverse_reverse]
    _ = dropTrailingZeros digits ++ (digits.reverse.takeWhile (· == '0')).reverse := List.reverse_append
    _ = _ := by rw [hzeros, List.reverse_replicate, List.length_replicate]

/-- What is left of the digits of a number are digits. -/
theorem isDigit_of_mem_dropTrailingZeros {c : Char} {n : ℕ} (hc : c ∈ dropTrailingZeros (Nat.toDigits 10 n)) :
    c.isDigit = true := by
  obtain ⟨k, hk⟩ := exists_trailingZeros (Nat.toDigits 10 n)
  have hmem : c ∈ Nat.toDigits 10 n := by
    rw [hk]
    exact List.mem_append_left _ hc
  exact Nat.isDigit_of_mem_toDigits (by decide) (by decide) hmem

/-- The text of a decimal spells the decimal. -/
theorem spelled_characters (d : Decimal) : spelled d.characters = d.value := by
  obtain ⟨k, hk⟩ := exists_trailingZeros (Nat.toDigits 10 d.digits)
  have hpoint : '.' ∉ Nat.toDigits 10 d.digits := fun h =>
    absurd (Nat.isDigit_of_mem_toDigits (by decide) (by decide) h) (by decide)
  generalize hkept : dropTrailingZeros (Nat.toDigits 10 d.digits) = kept at hk
  have hvalue : d.digits = 10 ^ k * digitsValue kept := by
    have hall : digitsValue (Nat.toDigits 10 d.digits) = d.digits := Nat.ofDigitChars_ten_toDigits
    rw [hk, digitsValue_append, digitsValue_zeros, List.length_replicate, Nat.add_zero] at hall
    exact hall.symm
  have hlength : (Nat.toDigits 10 d.digits).length = kept.length + k := by
    rw [hk, List.length_append, List.length_replicate]
  have hexponent : ((kept.length + k : ℕ) : ℤ) + d.exponent - kept.length = k + d.exponent := by
    push_cast
    ring
  have hkeptPoint : '.' ∉ kept := fun h => hpoint (hk ▸ List.mem_append_left _ h)
  rw [Decimal.characters, hkept, hlength, spelled_placePoint hkeptPoint, hexponent, Decimal.value,
    zpow_add₀ (by norm_num), zpow_natCast, hvalue]
  push_cast
  ring

/-! ## What rounds to a number -/

namespace Binary

/-- The rational number that a mantissa and an exponent make. -/
def value (x : Binary) : ℚ :=
  x.mantissa * 2 ^ x.exponent

/-- The least of what rounds to a number, in quarters of the last place. -/
def low (x : Binary) : ℕ :=
  if x.narrowBelow then 4 * x.mantissa - 1 else 4 * x.mantissa - 2

/-- A rational number lies between the middles of a number and its neighbours, or in such a middle if the mantissa is
even. -/
def Rounds (x : Binary) (q : ℚ) : Prop :=
  (x.low * 2 ^ (x.exponent - 2) < q ∨ x.mantissa % 2 = 0 ∧ q = x.low * 2 ^ (x.exponent - 2)) ∧
    (q < (4 * x.mantissa + 2 : ℕ) * 2 ^ (x.exponent - 2) ∨
      x.mantissa % 2 = 0 ∧ q = (4 * x.mantissa + 2 : ℕ) * 2 ^ (x.exponent - 2))

variable {x y : Binary} {q : ℚ}

/-- A power is a quotient of two powers with natural exponents. -/
theorem zpow_eq_div (b : ℚ) (i : ℤ) : b ^ i = b ^ i.toNat / b ^ (-i).toNat := by
  rcases Int.le_total 0 i with h | h
  · have hneg : (-i).toNat = 0 := by omega
    rw [hneg, pow_zero, div_one, ← zpow_natCast, Int.toNat_of_nonneg h]
  · have hpos : i.toNat = 0 := by omega
    rw [hpos, pow_zero, one_div, ← zpow_natCast, Int.toNat_of_nonneg (Int.neg_nonneg.2 h), zpow_neg, inv_inv]

/-- Scaled natural numbers are compared as the rational numbers that they are. -/
theorem compareScaled_eq (a : ℕ) (i : ℤ) (b : ℕ) (j : ℤ) :
    compareScaled a i b j = compare ((a : ℚ) * 10 ^ i) (b * 2 ^ j) := by
  have hpos : (0 : ℚ) < 10 ^ (-i).toNat * 2 ^ (-j).toNat :=
    mul_pos (pow_pos (by norm_num) _) (pow_pos (by norm_num) _)
  have hmono : StrictMono fun n : ℕ => (n : ℚ) / (10 ^ (-i).toNat * 2 ^ (-j).toNat) :=
    fun m n hmn => div_lt_div_of_pos_right (Nat.cast_lt.2 hmn) hpos
  rw [compareScaled, Nat.pow_eq, Nat.pow_eq, Nat.pow_eq, Nat.pow_eq, ← cmp_eq_compare, ← cmp_eq_compare,
    ← hmono.cmp_map_eq, zpow_eq_div, zpow_eq_div]
  congr 1
  · push_cast
    field_simp
  · push_cast
    field_simp

/-- What reads back as a number is what rounds to it. -/
theorem readsBack_iff (x : Binary) (d : Decimal) : x.readsBack d = true ↔ x.Rounds d.value := by
  rw [readsBack]
  simp only [compareScaled_eq, Bool.and_eq_true, Bool.or_eq_true, beq_iff_eq, decide_eq_true_eq, compare_gt_iff_gt,
    compare_lt_iff_lt, compare_eq_iff_eq]
  rfl

/-- A positive mantissa is above the least of what rounds to the number. -/
theorem low_lt (hpos : 0 < x.mantissa) : x.low < 4 * x.mantissa := by
  unfold low
  split <;> omega

/-- A number rounds to itself. -/
theorem rounds_value (hpos : 0 < x.mantissa) : x.Rounds x.value := by
  have hquarter : x.value = (4 * x.mantissa : ℕ) * 2 ^ (x.exponent - 2) := by
    rw [value, zpow_sub₀ (by norm_num)]
    push_cast
    ring
  have hscale : (0 : ℚ) < 2 ^ (x.exponent - 2) := zpow_pos (by norm_num) _
  rw [Rounds, hquarter]
  constructor
  · exact .inl (mul_lt_mul_of_pos_right (Nat.cast_lt.2 (low_lt hpos)) hscale)
  · exact .inl (mul_lt_mul_of_pos_right (Nat.cast_lt.2 (by omega)) hscale)

/-- The exact decimal of a number is the number. -/
theorem value_exactDecimal (x : Binary) : x.exactDecimal.value = x.value := by
  rw [exactDecimal, Decimal.value, value, Nat.pow_eq, Nat.pow_eq]
  rcases Int.le_total 0 x.exponent with h | h
  · have hneg : (-x.exponent).toNat = 0 := by omega
    rw [min_eq_right h, hneg, zpow_eq_div 2 x.exponent, hneg]
    simp
  · have hpos : x.exponent.toNat = 0 := by omega
    have hten : (10 : ℚ) ^ (-x.exponent).toNat = 5 ^ (-x.exponent).toNat * 2 ^ (-x.exponent).toNat := by
      rw [← mul_pow]
      norm_num
    rw [min_eq_left h, zpow_eq_div 2 x.exponent, zpow_eq_div 10 x.exponent, hpos, hten]
    push_cast
    field_simp

/-- A multiple of a power of ten that is taken reads back. -/
theorem readsBack_of_onGrid? {place : ℤ} {d : Decimal} (h : x.onGrid? place = some d) : x.readsBack d = true := by
  unfold onGrid? at h
  dsimp only at h
  split at h
  · rename_i hlower hupper
    split_ifs at h
    · exact Option.some.inj h ▸ hlower
    · exact Option.some.inj h ▸ hupper
  · rename_i hlower _
    exact Option.some.inj h ▸ hlower
  · rename_i _ hupper
    exact Option.some.inj h ▸ hupper
  · exact nomatch h

/-- The decimal that is written for a number rounds to it. -/
theorem rounds_shortest (hpos : 0 < x.mantissa) : x.Rounds x.shortest.value := by
  rw [shortest]
  cases hfound : (List.range 17).findSome? fun n : ℕ => x.onGrid? (x.scale - (n + 1)) with
  | none => exact (value_exactDecimal x).symm ▸ rounds_value hpos
  | some d =>
    obtain ⟨n, -, hn⟩ := List.exists_of_findSome?_eq_some hfound
    exact (readsBack_iff x d).1 (readsBack_of_onGrid? hn)

/-- A mantissa of 53 bits, or a smaller one with the least exponent. -/
structure IsCanonical (x : Binary) : Prop where
  pos : 0 < x.mantissa
  small : x.mantissa < 2 ^ 53
  least : -1074 ≤ x.exponent
  full : 2 ^ 52 ≤ x.mantissa ∨ x.exponent = -1074

/-- What rounds to a number is at most what rounds to a larger one, in quarters of its last place, and the same only if
one of the mantissas is odd. -/
theorem IsCanonical.gap (hx : x.IsCanonical) (hy : y.IsCanonical) {k : ℕ} (hk : y.exponent = x.exponent + k)
    (hlt : 0 < k ∨ x.mantissa < y.mantissa) :
    4 * x.mantissa + 2 < y.low * 2 ^ k ∨
      4 * x.mantissa + 2 = y.low * 2 ^ k ∧ ¬(x.mantissa % 2 = 0 ∧ y.mantissa % 2 = 0) := by
  have hsmall := hx.small
  have hleast := hx.least
  rcases Nat.eq_zero_or_pos k with rfl | hpos
  · -- With the same exponent, no neighbour below the larger number is half as far away.
    have hwide : y.narrowBelow = false := by
      have hfull := hx.full
      rw [narrowBelow]
      simp only [Nat.pow_eq, Bool.and_eq_false_iff, decide_eq_false_iff_not]
      omega
    have hlow : y.low = 4 * y.mantissa - 2 := if_neg (by simp [hwide])
    rw [hlow]
    omega
  · have hfull : 2 ^ 52 ≤ y.mantissa := by
      rcases hy.full with h | h
      · exact h
      · omega
    have hlow : 2 ^ 54 - 1 ≤ y.low := by
      unfold low narrowBelow
      simp only [Nat.pow_eq]
      split_ifs with h
      · omega
      · simp only [Bool.and_eq_true, decide_eq_true_eq] at h
        omega
    have htwo : 2 ≤ 2 ^ k := Nat.le_self_pow hpos.ne' 2
    have hdouble : y.low * 2 ≤ y.low * 2 ^ k := Nat.mul_le_mul_left _ htwo
    omega

/-- What rounds to a number does not round to a larger one. -/
theorem Rounds.not_rounds_of_lt (hq : x.Rounds q) (hx : x.IsCanonical) (hy : y.IsCanonical)
    (hlt : x.exponent < y.exponent ∨ x.exponent = y.exponent ∧ x.mantissa < y.mantissa) : ¬y.Rounds q := by
  rintro ⟨hbelow, -⟩
  obtain ⟨-, habove⟩ := hq
  obtain ⟨k, hk⟩ : ∃ k : ℕ, y.exponent = x.exponent + k := ⟨(y.exponent - x.exponent).toNat, by omega⟩
  have hgap := hx.gap hy hk (by omega)
  have hscale : (0 : ℚ) < 2 ^ (x.exponent - 2) := zpow_pos (by norm_num) _
  generalize hu : (2 : ℚ) ^ (x.exponent - 2) = u at habove hscale
  -- Both bounds in quarters of the last place of the smaller number.
  have hlow : (y.low : ℚ) * 2 ^ (y.exponent - 2) = (y.low * 2 ^ k : ℕ) * u := by
    rw [hk, add_sub_right_comm, zpow_add₀ (by norm_num), hu, zpow_natCast]
    push_cast
    ring
  rw [hlow] at hbelow
  have hupper : q ≤ (4 * x.mantissa + 2 : ℕ) * u := habove.elim le_of_lt fun h => h.2.le
  have hlower : ((y.low * 2 ^ k : ℕ) : ℚ) * u ≤ q := hbelow.elim le_of_lt fun h => h.2.ge
  have hle := le_of_mul_le_mul_right (hlower.trans hupper) hscale
  rcases hgap with hgap | ⟨hgap, hodd⟩
  · exact absurd (Nat.cast_le.1 hle) (Nat.not_le.2 hgap)
  · -- The bounds are the same, so the number is on both, which takes even mantissas.
    rw [← hgap] at hbelow hlower
    have heven : x.mantissa % 2 = 0 := (habove.resolve_left hlower.not_gt).1
    have heven' : y.mantissa % 2 = 0 := (hbelow.resolve_left hupper.not_gt).1
    exact hodd ⟨heven, heven'⟩

/-- No rational number rounds to two numbers. -/
theorem Rounds.unique (hx : x.IsCanonical) (hy : y.IsCanonical) (hqx : x.Rounds q) (hqy : y.Rounds q) : x = y := by
  by_contra hne
  have hdiffer : ¬(x.exponent = y.exponent ∧ x.mantissa = y.mantissa) := by
    rintro ⟨he, hm⟩
    cases x
    cases y
    exact hne (congrArg₂ Binary.mk hm he)
  rcases (by omega : (x.exponent < y.exponent ∨ x.exponent = y.exponent ∧ x.mantissa < y.mantissa) ∨
      (y.exponent < x.exponent ∨ y.exponent = x.exponent ∧ y.mantissa < x.mantissa)) with hlt | hlt
  · exact hqx.not_rounds_of_lt hx hy hlt hqy
  · exact hqy.not_rounds_of_lt hy hx hlt hqx

end Binary

/-! ## The fields of a number -/

variable {x y : Float} {negative : Bool} {mantissa : ℕ} {exponent : ℤ}

/-- The bits of a finite number, and what its mantissa and exponent may be. -/
theorem bits_of_finite (h : Exact.ofFloat x = .finite negative mantissa exponent) :
    x.toBits.toNat = (if negative then 2 ^ 63 else 0) +
        (if 2 ^ 52 ≤ mantissa then (exponent + 1075).toNat * 2 ^ 52 + (mantissa - 2 ^ 52) else mantissa) ∧
      (mantissa = 0 ∨ Binary.IsCanonical ⟨mantissa, exponent⟩) := by
  have hbits : x.toBits.toNat < 2 ^ 64 := x.toBits.toBitVec.isLt
  unfold Exact.ofFloat at h
  simp only [Nat.pow_eq] at h
  generalize x.toBits.toNat = bits at h hbits ⊢
  split_ifs at h with hones hfraction hzero
  · -- A number next to zero.
    obtain ⟨rfl, rfl, rfl⟩ := Exact.finite.inj h
    refine ⟨?_, ?_⟩
    · have hsmall : ¬2 ^ 52 ≤ bits % 2 ^ 52 := by omega
      simp only [hsmall, if_false, decide_eq_true_eq]
      split_ifs <;> omega
    · rcases Nat.eq_zero_or_pos (bits % 2 ^ 52) with h | h
      · exact .inl h
      · exact .inr ⟨h, by dsimp only; omega, le_refl _, .inr rfl⟩
  · obtain ⟨rfl, rfl, rfl⟩ := Exact.finite.inj h
    refine ⟨?_, .inr ⟨by dsimp only; omega, by dsimp only; omega, by dsimp only; omega, .inl (by dsimp only; omega)⟩⟩
    have hfull : 2 ^ 52 ≤ 2 ^ 52 + bits % 2 ^ 52 := by omega
    simp only [hfull, if_true, decide_eq_true_eq]
    split_ifs <;> omega

/-- The bits of an infinite number. -/
theorem bits_of_infinite (h : Exact.ofFloat x = .infinite negative) :
    x.toBits.toNat = (if negative then 2 ^ 63 else 0) + 2047 * 2 ^ 52 := by
  have hbits : x.toBits.toNat < 2 ^ 64 := x.toBits.toBitVec.isLt
  unfold Exact.ofFloat at h
  simp only [Nat.pow_eq] at h
  generalize x.toBits.toNat = bits at h hbits ⊢
  split_ifs at h with hones hfraction
  obtain rfl := Exact.infinite.inj h
  simp only [decide_eq_true_eq]
  split_ifs <;> omega

/-- The bits of NaN. -/
theorem bits_of_notANumber (h : Exact.ofFloat x = .notANumber) :
    x.toBits.toBitVec = UnpackedFloat.packedNaN .binary64 := by
  unfold Exact.ofFloat at h
  simp only [Nat.pow_eq] at h
  split_ifs at h with hones hfraction
  exact x.toModel.valid.eq_packedNaN (unpackExponent_eq_ones_iff.2 hones) (mt unpackMantissa_eq_zero_iff.1 hfraction)

/-- Numbers with the same bits are the same. -/
theorem eq_of_toBits_eq (h : x.toBits = y.toBits) : x = y := by
  obtain ⟨⟨bits, _⟩⟩ := x
  obtain ⟨⟨bits', _⟩⟩ := y
  obtain rfl : bits = bits' := h
  rfl

/-- A number is known from what it is exactly. -/
theorem ofFloat_injective : Function.Injective Exact.ofFloat := by
  intro x y h
  refine eq_of_toBits_eq (UInt64.toBitVec_inj.1 ?_)
  cases hx : Exact.ofFloat x with
  | notANumber => rw [bits_of_notANumber hx, bits_of_notANumber (h.symm.trans hx)]
  | infinite negative =>
    have hbits := (bits_of_infinite hx).trans (bits_of_infinite (h.symm.trans hx)).symm
    exact BitVec.eq_of_toNat_eq hbits
  | finite negative mantissa exponent =>
    have hbits := (bits_of_finite hx).1.trans (bits_of_finite (h.symm.trans hx)).1.symm
    exact BitVec.eq_of_toNat_eq hbits

/-! ## The text of a number -/

/-- The characters of a number without its sign. -/
def sizeCharacters (mantissa : ℕ) (exponent : ℤ) : List Char :=
  if mantissa = 0 then ['0'] else (Binary.shortest ⟨mantissa, exponent⟩).characters

/-- A number that is positive or zero is written with digits and a point. -/
theorem mem_sizeCharacters {c : Char} (hc : c ∈ sizeCharacters mantissa exponent) : c.isDigit = true ∨ c = '.' := by
  rw [sizeCharacters] at hc
  split_ifs at hc
  · exact .inl (List.mem_singleton.1 hc ▸ rfl)
  · rcases mem_placePoint hc with hc | rfl | rfl
    · exact .inl (isDigit_of_mem_dropTrailingZeros hc)
    · exact .inl rfl
    · exact .inr rfl

/-- What rounds to a positive number is positive. -/
theorem Binary.Rounds.pos {b : Binary} {q : ℚ} (h : b.Rounds q) (hpos : 0 < b.mantissa) : 0 < q := by
  have hlow : 0 < b.low := by
    unfold Binary.low
    split <;> omega
  have hbound : (0 : ℚ) < b.low * 2 ^ (b.exponent - 2) := mul_pos (Nat.cast_pos.2 hlow) (zpow_pos (by norm_num) _)
  exact h.1.elim hbound.trans fun h => h.2 ▸ hbound

/-- The characters spell what rounds to the number, or zero. -/
theorem spelled_sizeCharacters (mantissa : ℕ) (exponent : ℤ) :
    (mantissa = 0 ∧ spelled (sizeCharacters mantissa exponent) = 0) ∨
      0 < mantissa ∧ Binary.Rounds ⟨mantissa, exponent⟩ (spelled (sizeCharacters mantissa exponent)) := by
  rw [sizeCharacters]
  rcases Nat.eq_zero_or_pos mantissa with h | h
  · exact .inl ⟨h, by rw [if_pos h]; simp [spelled, digitsValue, Nat.ofDigitChars_cons]⟩
  · rw [if_neg h.ne', spelled_characters]
    exact .inr ⟨h, Binary.rounds_shortest h⟩

/-- The text of a finite number is its sign and its size. -/
theorem toList_text_finite (h : Exact.ofFloat x = .finite negative mantissa exponent) :
    (text x).toList = (if negative then ['-'] else []) ++ sizeCharacters mantissa exponent := by
  rw [text, h, sizeCharacters]
  exact String.toList_ofList

/-- The text of an infinite number. -/
theorem toList_text_infinite (h : Exact.ofFloat x = .infinite negative) :
    (text x).toList = (if negative then ['-'] else []) ++ ['i', 'n', 'f'] := by
  rw [text, h]
  cases negative <;> rfl

/-- The text of NaN. -/
theorem toList_text_notANumber (h : Exact.ofFloat x = .notANumber) : (text x).toList = ['N', 'a', 'N'] := by
  rw [text, h]
  rfl

/-- The text of a finite number has digits, a point and a sign, and no letter. -/
theorem mem_text_finite {c : Char} (h : Exact.ofFloat x = .finite negative mantissa exponent)
    (hc : c ∈ (text x).toList) : c.isDigit = true ∨ c ∈ ['-', '.'] := by
  rw [toList_text_finite h] at hc
  rcases List.mem_append.1 hc with hc | hc
  · cases negative with
    | false => exact absurd hc List.not_mem_nil
    | true => exact .inr (List.mem_cons.2 (.inl (List.mem_singleton.1 hc)))
  · rcases mem_sizeCharacters hc with hc | hc
    · exact .inl hc
    · exact .inr (List.mem_cons_of_mem _ (List.mem_singleton.2 hc))

/-- Which characters the text of a number may have. -/
theorem mem_text {c : Char} (hc : c ∈ (text x).toList) :
    c.isDigit = true ∨ c ∈ ['-', '.', 'i', 'n', 'f', 'N', 'a'] := by
  have hword {cs : List Char} (hcs : cs.all (['-', '.', 'i', 'n', 'f', 'N', 'a'].contains ·) = true) (hc : c ∈ cs) :
      c ∈ ['-', '.', 'i', 'n', 'f', 'N', 'a'] := List.contains_iff_mem.1 (List.all_eq_true.1 hcs c hc)
  cases hx : Exact.ofFloat x with
  | notANumber => exact .inr (hword (by decide) (toList_text_notANumber hx ▸ hc))
  | infinite negative =>
    rw [toList_text_infinite hx] at hc
    exact .inr (hword (by cases negative <;> decide) hc)
  | finite negative mantissa exponent =>
    exact (mem_text_finite hx hc).imp_right fun hc => List.mem_append_left ['i', 'n', 'f', 'N', 'a'] hc

/-- Every number has a text. -/
theorem toList_text_ne_nil : (text x).toList ≠ [] := by
  cases hx : Exact.ofFloat x with
  | notANumber => exact toList_text_notANumber hx ▸ List.cons_ne_nil _ _
  | infinite negative => simp [toList_text_infinite hx]
  | finite negative mantissa exponent =>
    have hsize : sizeCharacters mantissa exponent ≠ [] := by
      intro hnil
      rcases spelled_sizeCharacters mantissa exponent with ⟨rfl, -⟩ | ⟨hpos, hrounds⟩
      · exact absurd hnil (by rw [sizeCharacters, if_pos rfl]; exact List.cons_ne_nil _ _)
      · -- No digits spell zero, and zero rounds to no positive number.
        rw [hnil] at hrounds
        exact absurd (hrounds.pos hpos) (by simp [spelled, digitsValue])
    simp [toList_text_finite hx, hsize]

/-- Finite numbers with the same text are the same. -/
theorem eq_of_text_eq_finite {negative' : Bool} {mantissa' : ℕ} {exponent' : ℤ}
    (hx : Exact.ofFloat x = .finite negative mantissa exponent)
    (hy : Exact.ofFloat y = .finite negative' mantissa' exponent') (h : (text x).toList = (text y).toList) : x = y := by
  have hsign {m : ℕ} {e : ℤ} : '-' ∉ sizeCharacters m e := fun hc => absurd (mem_sizeCharacters hc) (by decide)
  rw [toList_text_finite hx, toList_text_finite hy] at h
  obtain ⟨rfl, hsize⟩ :
      negative = negative' ∧ sizeCharacters mantissa exponent = sizeCharacters mantissa' exponent' := by
    cases negative <;> cases negative'
    · exact ⟨rfl, h⟩
    · have h : sizeCharacters mantissa exponent = '-' :: sizeCharacters mantissa' exponent' := h
      exact absurd (by rw [h]; exact List.mem_cons_self) hsign
    · have h : '-' :: sizeCharacters mantissa exponent = sizeCharacters mantissa' exponent' := h
      exact absurd (by rw [← h]; exact List.mem_cons_self) hsign
    · exact ⟨rfl, (List.cons.inj h).2⟩
  obtain ⟨hbits, hcanonical⟩ := bits_of_finite hx
  obtain ⟨hbits', hcanonical'⟩ := bits_of_finite hy
  rcases spelled_sizeCharacters mantissa exponent with ⟨rfl, hzero⟩ | ⟨hpos, hrounds⟩
  · rcases spelled_sizeCharacters mantissa' exponent' with ⟨rfl, -⟩ | ⟨hpos', hrounds'⟩
    · have hzero : ¬2 ^ 52 ≤ 0 := by norm_num
      rw [if_neg hzero] at hbits hbits'
      exact eq_of_toBits_eq (UInt64.toBitVec_inj.1 (BitVec.eq_of_toNat_eq (hbits.trans hbits'.symm)))
    · exact absurd (hrounds'.pos hpos') (by rw [← hsize, hzero]; exact lt_irrefl 0)
  · rcases spelled_sizeCharacters mantissa' exponent' with ⟨rfl, hzero'⟩ | ⟨hpos', hrounds'⟩
    · exact absurd (hrounds.pos hpos) (by rw [hsize, hzero']; exact lt_irrefl 0)
    · rw [← hsize] at hrounds'
      have hsame := hrounds.unique (hcanonical.resolve_left hpos.ne') (hcanonical'.resolve_left hpos'.ne') hrounds'
      obtain ⟨rfl, rfl⟩ := Binary.mk.inj hsame
      exact ofFloat_injective (hx.trans hy.symm)

/-- Only an infinite number has an `i` in its text. -/
theorem mem_text_iff_infinite : 'i' ∈ (text x).toList ↔ ∃ negative, Exact.ofFloat x = .infinite negative := by
  cases hx : Exact.ofFloat x with
  | notANumber =>
    rw [toList_text_notANumber hx]
    exact ⟨fun h => absurd h (by decide), nofun⟩
  | infinite negative =>
    rw [toList_text_infinite hx]
    exact ⟨fun _ => ⟨negative, rfl⟩, fun _ => List.mem_append_right _ List.mem_cons_self⟩
  | finite negative mantissa exponent => exact ⟨fun h => absurd (mem_text_finite hx h) (by decide), nofun⟩

/-- Only NaN has an `N` in its text. -/
theorem mem_text_iff_notANumber : 'N' ∈ (text x).toList ↔ Exact.ofFloat x = .notANumber := by
  cases hx : Exact.ofFloat x with
  | notANumber =>
    rw [toList_text_notANumber hx]
    exact ⟨fun _ => rfl, fun _ => List.mem_cons_self⟩
  | infinite negative =>
    rw [toList_text_infinite hx]
    exact ⟨fun h => absurd h (by cases negative <;> decide), nofun⟩
  | finite negative mantissa exponent => exact ⟨fun h => absurd (mem_text_finite hx h) (by decide), nofun⟩

/-- The text of a number tells which number it is. -/
theorem text_injective : Function.Injective text := by
  intro x y h
  have h : (text x).toList = (text y).toList := congrArg String.toList h
  cases hx : Exact.ofFloat x with
  | notANumber =>
    have hy := mem_text_iff_notANumber.1 (h ▸ mem_text_iff_notANumber.2 hx)
    exact ofFloat_injective (hx.trans hy.symm)
  | infinite negative =>
    obtain ⟨negative', hy⟩ := mem_text_iff_infinite.1 (h ▸ mem_text_iff_infinite.2 ⟨negative, hx⟩)
    rw [toList_text_infinite hx, toList_text_infinite hy] at h
    obtain rfl : negative = negative' := by
      cases negative <;> cases negative'
      · rfl
      · exact absurd h (by decide)
      · exact absurd h (by decide)
      · rfl
    exact ofFloat_injective (hx.trans hy.symm)
  | finite negative mantissa exponent =>
    cases hy : Exact.ofFloat y with
    | notANumber =>
      have hx' := mem_text_iff_notANumber.1 (h ▸ mem_text_iff_notANumber.2 hy)
      exact absurd (hx.symm.trans hx') nofun
    | infinite negative' =>
      obtain ⟨_, hx'⟩ := mem_text_iff_infinite.1 (h ▸ mem_text_iff_infinite.2 ⟨negative', hy⟩)
      exact absurd (hx.symm.trans hx') nofun
    | finite negative' mantissa' exponent' => exact eq_of_text_eq_finite hx hy h

end Lox.Number
