import Mathlib.Algebra.Order.Group.Int
import Mathlib.Data.Int.Cast.Basic
import Mathlib.Data.Prod.Lex
import Mathlib.Order.Compare
import Lox.Value.Operator

/-!
# The order of numbers

Two numbers compare just if neither is NaN, and then as their ranks do (`compare?_of_not_isNaN`). The rank of a number
is a triple that is compared part by part: whether the number is infinite or finite, positive or negative, then its
exponent, then its mantissa. Ranks are ordered totally, so all that is said of the order of numbers follows from this.
-/

namespace Lox.Number

open Float.Model (UnpackedFloat)
open Float.Model.UnpackedFloat

/-- The place of an unpacked number among the others. Larger exponents and mantissas are farther from zero. -/
def rankOfUnpacked : UnpackedFloat → ℤ ×ₗ ℤ ×ₗ ℤ
  | .infinity .positive => toLex (2, toLex (0, 0))
  | .finite .positive mantissa exponent _ => toLex (1, toLex (exponent, mantissa))
  | .finite .negative mantissa exponent _ => toLex (-1, toLex (-exponent, -mantissa))
  | .infinity .negative => toLex (-2, toLex (0, 0))
  | _ => toLex (0, toLex (0, 0))

/-- The place of a number among the others. Both zeros have the same. -/
def rank (x : Float) : ℤ ×ₗ ℤ ×ₗ ℤ :=
  rankOfUnpacked x.toModel.unpack

/-- Integers that are natural numbers compare as these do. -/
theorem compare_natCast (m n : ℕ) : compare (m : ℤ) n = compare m n := by
  rw [← cmp_eq_compare, ← cmp_eq_compare]
  exact StrictMono.cmp_map_eq (fun _ _ => Int.ofNat_lt.2) m n

/-- Negative integers compare the other way round. -/
theorem compare_neg (i j : ℤ) : compare (-i) (-j) = (compare i j).swap := by
  rw [← cmp_eq_compare, ← cmp_eq_compare, cmp_swap]
  exact StrictAnti.cmp_map_eq (fun _ _ => Int.neg_lt_neg) i j

/-- Ranks with the same first part compare by the other two. -/
theorem compare_rank (k i j i' j' : ℤ) :
    compare (toLex (k, toLex (i, j))) (toLex (k, toLex (i', j'))) = (compare i i').then (compare j j') := by
  have hfirst : compare k k = .eq := compare_eq_iff_eq.2 rfl
  simp only [Prod.Lex.compare_def, compareLex, compareOn, ofLex_toLex, hfirst, Ordering.then]

/-- Unpacked numbers other than NaN compare as their ranks do. -/
theorem compare_eq_some {a b : UnpackedFloat} (ha : a.isNaN = false) (hb : b.isNaN = false) :
    a.compare b = some (compare (rankOfUnpacked a) (rankOfUnpacked b)) := by
  cases a with
  | notANumber => exact nomatch ha
  | infinity s =>
    cases b with
    | notANumber => exact nomatch hb
    | infinity s' => cases s <;> cases s' <;> rfl
    | zero s' => cases s <;> rfl
    | finite s' m' e' hm' => cases s <;> cases s' <;> rfl
  | zero s =>
    cases b with
    | notANumber => exact nomatch hb
    | infinity s' => cases s' <;> rfl
    | zero s' => rfl
    | finite s' m' e' hm' => cases s' <;> rfl
  | finite s m e hm =>
    cases b with
    | notANumber => exact nomatch hb
    | infinity s' => cases s <;> cases s' <;> rfl
    | zero s' => cases s <;> rfl
    | finite s' m' e' hm' =>
      -- Only numbers of the same sign compare by exponent and mantissa.
      match s, s' with
      | .positive, .negative => rfl
      | .negative, .positive => rfl
      | .positive, .positive =>
        have hparts := compare_rank 1 e m e' m'
        rw [compare_natCast] at hparts
        exact congrArg some hparts.symm
      | .negative, .negative =>
        have hparts := compare_rank (-1) (-e) (-m) (-e') (-m')
        rw [compare_neg, compare_neg, compare_natCast, ← Ordering.swap_then] at hparts
        exact congrArg some hparts.symm

/-- With NaN nothing compares. -/
theorem compare_eq_none {a b : UnpackedFloat} (h : a.isNaN = true ∨ b.isNaN = true) : a.compare b = none := by
  cases a with
  | notANumber => rfl
  | infinity s =>
    cases b with
    | notANumber => cases s <;> rfl
    | _ => exact h.elim nofun nofun
  | zero s =>
    cases b with
    | notANumber => rfl
    | _ => exact h.elim nofun nofun
  | finite s m e hm =>
    cases b with
    | notANumber => cases s <;> rfl
    | _ => exact h.elim nofun nofun

variable {x y : Float}

/-- Which order two numbers are in, if any. -/
theorem compare_unpack_iff {o : Ordering} : x.toModel.unpack.compare y.toModel.unpack = some o ↔
    (x.isNaN = false ∧ y.isNaN = false) ∧ compare (rank x) (rank y) = o := by
  by_cases hnan : x.isNaN = false ∧ y.isNaN = false
  · rw [compare_eq_some hnan.1 hnan.2, Option.some_inj]
    exact (and_iff_right hnan).symm
  · have hone : x.isNaN = true ∨ y.isNaN = true := by simpa [or_iff_not_imp_left] using hnan
    rw [compare_eq_none hone]
    exact ⟨nofun, fun h => absurd h.1 hnan⟩

/-- One number is less than another if its rank is less, and neither is NaN. -/
theorem lt_iff : x < y ↔ (x.isNaN = false ∧ y.isNaN = false) ∧ rank x < rank y := by
  rw [← compare_lt_iff_lt, ← compare_unpack_iff]
  show decide (x.toModel < y.toModel) = true ↔ _
  rw [decide_eq_true_iff]
  exact beq_iff_eq

/-- Two numbers are equal if they have the same rank, and neither is NaN. -/
theorem beq_iff : (x == y) = true ↔ (x.isNaN = false ∧ y.isNaN = false) ∧ rank x = rank y := by
  rw [← compare_eq_iff_eq (a := rank x), ← compare_unpack_iff]
  show (x.toModel.unpack.compare y.toModel.unpack == some .eq) = true ↔ _
  exact beq_iff_eq

/-- With NaN no number compares. -/
theorem compare?_of_isNaN (h : x.isNaN = true ∨ y.isNaN = true) : compare? x y = none := by
  have hnone : ¬(x.isNaN = false ∧ y.isNaN = false) := by
    rintro ⟨hx, hy⟩
    rcases h with h | h
    · exact absurd (hx.symm.trans h) nofun
    · exact absurd (hy.symm.trans h) nofun
  have hlt : ¬x < y := fun hlt => hnone (lt_iff.1 hlt).1
  have heq : ¬(x == y) = true := fun heq => hnone (beq_iff.1 heq).1
  have hgt : ¬y < x := fun hgt => hnone (lt_iff.1 hgt).1.symm
  rw [compare?, if_neg hlt, if_neg heq, if_neg hgt]

/-- Other numbers compare as their ranks do. -/
theorem compare?_of_not_isNaN (hx : x.isNaN = false) (hy : y.isNaN = false) :
    compare? x y = some (cmp (rank x) (rank y)) := by
  have hlt : x < y ↔ rank x < rank y := lt_iff.trans (and_iff_right ⟨hx, hy⟩)
  have heq : (x == y) = true ↔ rank x = rank y := beq_iff.trans (and_iff_right ⟨hx, hy⟩)
  have hgt : y < x ↔ rank y < rank x := lt_iff.trans (and_iff_right ⟨hy, hx⟩)
  rw [compare?]
  rcases lt_trichotomy (rank x) (rank y) with h | h | h
  · rw [if_pos (hlt.2 h), (cmp_eq_lt_iff _ _).2 h]
  · rw [if_neg (mt hlt.1 h.not_lt), if_pos (heq.2 h), (cmp_eq_eq_iff _ _).2 h]
  · rw [if_neg (mt hlt.1 h.not_gt), if_neg (mt heq.1 h.ne'), if_pos (hgt.2 h), (cmp_eq_gt_iff _ _).2 h]

end Lox.Number
