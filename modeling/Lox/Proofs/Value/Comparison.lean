import Mathlib.Data.List.Lex
import Mathlib.Data.String.Basic
import Lox.Proofs.Number.Order

/-!
# Comparisons

Equality, by content or identity, and the order of numbers and of strings are defined apart, and a comparison of numbers
one of which is NaN takes a way of its own. They fit together (`comparisons_cohere`): an operator that asks for an order
answers by the order that two values are in, and `false` if they are in none (`comparison_of_comparable`); only with NaN
two numbers or two strings are in none (`compare?_eq_none_iff`); the order the other way round is the reverse
(`compare?_swap`); and the order is that of equals just for equal values (`compare?_eq_some_eq_iff`).
-/

namespace Lox

/-- The code points of a string. -/
def codePoints (s : String) : List ℕ :=
  s.toList.map Char.toNat

/-- The operators that ask for an order. -/
inductive BinaryOp.IsOrder : BinaryOp → Prop
  | lessThan : IsOrder .lessThan
  | lessThanEqual : IsOrder .lessThanEqual
  | greaterThan : IsOrder .greaterThan
  | greaterThanEqual : IsOrder .greaterThanEqual

/-- The operator that asks for the reverse order. -/
def BinaryOp.converse : BinaryOp → BinaryOp
  | lessThan => greaterThan
  | lessThanEqual => greaterThanEqual
  | greaterThan => lessThan
  | greaterThanEqual => lessThanEqual
  | op => op

/-- It holds for the reverse of what the operator holds for. -/
theorem BinaryOp.converse_holds_swap (op : BinaryOp) (o : Ordering) : op.converse.holds o.swap = op.holds o := by
  cases op <;> cases o <;> rfl

namespace Value

/-- Two numbers, or two strings. -/
inductive Comparable : Value → Value → Prop
  | numbers (x y : Float) : Comparable (.number x) (.number y)
  | strings (s t : String) : Comparable (.string s) (.string t)

/-- A value is NaN. -/
def IsNaN : Value → Prop
  | .number x => x.isNaN = true
  | _ => False

end Value

/-- A binary operator answers `true` for two values. -/
def Heap.Affirms (h : Heap) (op : BinaryOp) (left right : Value) : Prop :=
  h.binary op left right = .ok (.boolean true)

/-! ## The order of strings -/

/-- A string is less than another if its code points come first. -/
theorem codePoints_lt_iff {s t : String} : codePoints s < codePoints t ↔ s < t := by
  have hmono : StrictMono (List.map Char.toNat) := fun _ _ => List.map_lt fun _ _ hlt => hlt
  rw [String.lt_iff]
  exact hmono.lt_iff_lt

/-- Strings compare by their order. -/
theorem compareStrings_eq_cmp (s t : String) : compareStrings s t = cmp s t := by
  rw [compareStrings]
  rcases lt_trichotomy s t with h | h | h
  · rw [if_pos h, (cmp_eq_lt_iff s t).2 h]
  · rw [if_neg h.not_lt, if_pos h, (cmp_eq_eq_iff s t).2 h]
  · rw [if_neg h.not_gt, if_neg h.ne', (cmp_eq_gt_iff s t).2 h]

/-! ## The order of values -/

namespace Value

variable {a b c : Value} {op : BinaryOp} {o : Ordering}

/-- What compares one way round compares the other way round. -/
theorem Comparable.symm (h : Comparable a b) : Comparable b a := by
  cases h with
  | numbers x y => exact .numbers y x
  | strings s t => exact .strings t s

/-- Values that are in an order are two numbers or two strings. -/
theorem comparable_of_compare? (h : a.compare? b = some o) : Comparable a b := by
  unfold compare? at h
  split at h
  · exact .numbers _ _
  · exact .strings _ _
  · exact nomatch h

/-- Other values are in no order. -/
theorem compare?_of_not_comparable (h : ¬Comparable a b) : a.compare? b = none := by
  cases hc : a.compare? b with
  | none => rfl
  | some o => exact absurd (comparable_of_compare? hc) h

/-- Only with NaN two numbers or two strings are in no order. -/
theorem compare?_eq_none_iff (h : Comparable a b) : a.compare? b = none ↔ a.IsNaN ∨ b.IsNaN := by
  cases h with
  | numbers x y =>
    show Number.compare? x y = none ↔ x.isNaN = true ∨ y.isNaN = true
    constructor
    · intro hnone
      by_contra hnan
      obtain ⟨hx, hy⟩ : x.isNaN = false ∧ y.isNaN = false := by simpa using hnan
      rw [Number.compare?_of_not_isNaN hx hy] at hnone
      exact nomatch hnone
    · exact Number.compare?_of_isNaN
  | strings s t => exact ⟨nofun, fun h => h.elim False.elim False.elim⟩

/-- The order the other way round is the reverse. -/
theorem compare?_swap (a b : Value) : b.compare? a = (a.compare? b).map Ordering.swap := by
  by_cases h : Comparable a b
  · cases h with
    | numbers x y =>
      show Number.compare? y x = (Number.compare? x y).map Ordering.swap
      by_cases hnan : x.isNaN = true ∨ y.isNaN = true
      · rw [Number.compare?_of_isNaN hnan, Number.compare?_of_isNaN hnan.symm]
        rfl
      · obtain ⟨hx, hy⟩ : x.isNaN = false ∧ y.isNaN = false := by simpa using hnan
        rw [Number.compare?_of_not_isNaN hx hy, Number.compare?_of_not_isNaN hy hx, Option.map_some, cmp_swap]
    | strings s t =>
      show some (compareStrings t s) = some (compareStrings s t).swap
      rw [compareStrings_eq_cmp, compareStrings_eq_cmp, cmp_swap]
  · rw [compare?_of_not_comparable h, compare?_of_not_comparable (mt Comparable.symm h)]
    rfl

/-- What is less than something less is less. -/
theorem compare?_trans (hab : a.compare? b = some .lt) (hbc : b.compare? c = some .lt) : a.compare? c = some .lt := by
  cases comparable_of_compare? hab with
  | numbers x y =>
    cases comparable_of_compare? hbc with
    | numbers _ z =>
      have hnan {x y : Float} (h : Number.compare? x y = some .lt) : x.isNaN = false ∧ y.isNaN = false := by
        by_contra hnan
        rw [Number.compare?_of_isNaN (by simpa [or_iff_not_imp_left] using hnan)] at h
        exact nomatch h
      change Number.compare? x y = some .lt at hab
      change Number.compare? y z = some .lt at hbc
      obtain ⟨hx, hy⟩ := hnan hab
      obtain ⟨-, hz⟩ := hnan hbc
      rw [Number.compare?_of_not_isNaN hx hy, Option.some_inj, cmp_eq_lt_iff] at hab
      rw [Number.compare?_of_not_isNaN hy hz, Option.some_inj, cmp_eq_lt_iff] at hbc
      show Number.compare? x z = some .lt
      rw [Number.compare?_of_not_isNaN hx hz, Option.some_inj, cmp_eq_lt_iff]
      exact hab.trans hbc
  | strings s t =>
    cases comparable_of_compare? hbc with
    | strings _ u =>
      change some (compareStrings s t) = some .lt at hab
      change some (compareStrings t u) = some .lt at hbc
      rw [compareStrings_eq_cmp, Option.some_inj, cmp_eq_lt_iff] at hab hbc
      show some (compareStrings s u) = some .lt
      rw [compareStrings_eq_cmp, Option.some_inj, cmp_eq_lt_iff]
      exact hab.trans hbc

/-- Two numbers or two strings are in the order of equals just if they are equal. -/
theorem compare?_eq_some_eq_iff (h : Comparable a b) : a.compare? b = some .eq ↔ a.equals b = true := by
  cases h with
  | numbers x y =>
    show Number.compare? x y = some .eq ↔ (x == y) = true
    rw [Number.beq_iff]
    by_cases hnan : x.isNaN = false ∧ y.isNaN = false
    · rw [Number.compare?_of_not_isNaN hnan.1 hnan.2, Option.some_inj, cmp_eq_eq_iff]
      exact (and_iff_right hnan).symm
    · rw [Number.compare?_of_isNaN (by simpa [or_iff_not_imp_left] using hnan)]
      exact ⟨nofun, fun h => absurd h.1 hnan⟩
  | strings s t =>
    show some (compareStrings s t) = some .eq ↔ (s == t) = true
    rw [compareStrings_eq_cmp, Option.some_inj, cmp_eq_eq_iff, beq_iff_eq]

/-! ## Equality -/

/-- Whatever is no number is equal to itself and to nothing else. -/
theorem equals_iff_eq (ha : ∀ x, a ≠ .number x) : a.equals b = true ↔ a = b := by
  constructor
  · intro h
    unfold equals at h
    split at h <;> simp_all
  · rintro rfl
    cases a with
    | number x => exact absurd rfl (ha x)
    | _ => simp [equals]

/-- What is equal to a number is a number. -/
theorem exists_number_of_equals {x : Float} (h : (number x).equals b = true) :
    ∃ y, b = .number y ∧ (x == y) = true := by
  cases b with
  | number y => exact ⟨y, rfl, h⟩
  | _ => exact nomatch h

/-- A value is a number or not. -/
theorem number_or_not (a : Value) : (∃ x, a = .number x) ∨ ∀ x, a ≠ .number x := by
  by_cases h : ∃ x, a = .number x
  · exact .inl h
  · exact .inr (not_exists.1 h)

/-- What equals a value is equalled by it. -/
theorem equals_symm (h : a.equals b = true) : b.equals a = true := by
  rcases number_or_not a with ⟨x, rfl⟩ | ha
  · obtain ⟨y, rfl, hxy⟩ := exists_number_of_equals h
    obtain ⟨⟨hx, hy⟩, hrank⟩ := Number.beq_iff.1 hxy
    exact Number.beq_iff.2 ⟨⟨hy, hx⟩, hrank.symm⟩
  · obtain rfl := (equals_iff_eq ha).1 h
    exact h

/-- What equals an equal value is equal. -/
theorem equals_trans (hab : a.equals b = true) (hbc : b.equals c = true) : a.equals c = true := by
  rcases number_or_not a with ⟨x, rfl⟩ | ha
  · obtain ⟨y, rfl, hxy⟩ := exists_number_of_equals hab
    obtain ⟨z, rfl, hyz⟩ := exists_number_of_equals hbc
    obtain ⟨⟨hx, -⟩, hrank⟩ := Number.beq_iff.1 hxy
    obtain ⟨⟨-, hz⟩, hrank'⟩ := Number.beq_iff.1 hyz
    exact Number.beq_iff.2 ⟨⟨hx, hz⟩, hrank.trans hrank'⟩
  · obtain rfl := (equals_iff_eq ha).1 hab
    exact hbc

/-- Every value but NaN is equal to itself. -/
theorem equals_self_iff : a.equals a = true ↔ ¬a.IsNaN := by
  rcases number_or_not a with ⟨x, rfl⟩ | ha
  · show (x == x) = true ↔ ¬x.isNaN = true
    rw [Number.beq_iff, and_self, Bool.not_eq_true]
    exact and_iff_left rfl
  · have hnan : ¬a.IsNaN := by
      cases a with
      | number x => exact absurd rfl (ha x)
      | _ => exact not_false
    exact ⟨fun _ => hnan, fun _ => (equals_iff_eq ha).2 rfl⟩

/-! ## The answers of operators -/

/-- Two numbers or two strings are compared by the order that they are in; without one, no comparison holds. -/
theorem comparison_of_comparable (hop : op.IsOrder) (h : Comparable a b) :
    comparison op a b = .ok ((a.compare? b).any op.holds) := by
  rw [comparison, order]
  by_cases hnan : a.isUnordered b = true
  · -- The operator is asked about an order for which it does not hold.
    have hnone : a.compare? b = none := by
      cases h with
      | numbers x y => exact Number.compare?_of_isNaN (by simpa [isUnordered] using hnan)
      | strings s t => exact nomatch hnan
    rw [if_pos hnan, hnone]
    cases hop <;> rfl
  · have hsome : a.compare? b ≠ none := by
      rw [ne_eq, compare?_eq_none_iff h]
      cases h with
      | numbers x y => simpa [isUnordered, IsNaN] using hnan
      | strings s t => exact fun h => h.elim False.elim False.elim
    rw [if_neg hnan]
    cases hc : a.compare? b with
    | none => exact absurd hc hsome
    | some o => rfl

/-- Nothing else is compared, whatever is asked. -/
theorem comparison_of_not_comparable (h : ¬Comparable a b) :
    comparison op a b = .error (.type (.comparison op a.kind b.kind)) := by
  have hordered : ¬a.isUnordered b = true := by
    intro hnan
    unfold isUnordered at hnan
    split at hnan
    · exact h (.numbers _ _)
    · exact nomatch hnan
  rw [comparison, order, if_neg hordered, compare?_of_not_comparable h]
  rfl

end Value

namespace Heap

variable {h : Heap} {a b : Value} {op : BinaryOp} {o : Ordering}

/-- An operator that asks for an order is a comparison. -/
theorem binary_of_isOrder (hop : op.IsOrder) : h.binary op a b = (Value.comparison op a b).map .boolean := by
  cases hop <;> rfl

/-- Two numbers or two strings have an answer to whether they are in an order. -/
theorem binary_of_comparable (hop : op.IsOrder) (hab : Value.Comparable a b) :
    h.binary op a b = .ok (.boolean ((a.compare? b).any op.holds)) := by
  rw [binary_of_isOrder hop, Value.comparison_of_comparable hop hab]
  rfl

/-- For other values there is none. -/
theorem binary_of_not_comparable (hop : op.IsOrder) (hab : ¬Value.Comparable a b) :
    h.binary op a b = .error (.type (.comparison op a.kind b.kind)) := by
  rw [binary_of_isOrder hop, Value.comparison_of_not_comparable hab]
  rfl

/-- An operator holds for two values if it holds for the order that they are in. -/
theorem affirms_iff (hop : op.IsOrder) : h.Affirms op a b ↔ (a.compare? b).any op.holds = true := by
  rw [Affirms]
  by_cases hab : Value.Comparable a b
  · rw [binary_of_comparable hop hab, Except.ok.injEq, Value.boolean.injEq]
  · rw [binary_of_not_comparable hop hab, Value.compare?_of_not_comparable hab]
    exact ⟨nofun, nofun⟩

/-- An operator holds for two values just if its converse holds the other way round. -/
theorem affirms_converse_iff (hop : op.IsOrder) : h.Affirms op.converse b a ↔ h.Affirms op a b := by
  have hop' : op.converse.IsOrder := by cases hop <;> constructor
  rw [affirms_iff hop', affirms_iff hop, Value.compare?_swap a b]
  cases a.compare? b with
  | none => rfl
  | some o => rw [Option.map_some, Option.any_some, Option.any_some, BinaryOp.converse_holds_swap]

/-- One value is less than another if that is their order. -/
theorem affirms_lessThan_iff : h.Affirms .lessThan a b ↔ a.compare? b = some .lt := by
  rw [affirms_iff .lessThan]
  cases a.compare? b with
  | none => exact ⟨nofun, nofun⟩
  | some o => cases o <;> decide

/-- Two values are said to be equal if they are. -/
theorem affirms_equal_iff : h.Affirms .equal a b ↔ a.equals b = true := by
  show Except.ok (Value.boolean _) = _ ↔ _
  rw [Except.ok.injEq, Value.boolean.injEq]

/-- The comparison operators fit together. -/
structure ComparesCoherently (h : Heap) : Prop where
  /-- Both equality operators have an answer for any two values, and one is the negation of the other. -/
  notEqual : ∀ a b, ∃ answer,
    h.binary .equal a b = .ok (.boolean answer) ∧ h.binary .notEqual a b = .ok (.boolean !answer)
  equal_symm : ∀ a b, h.Affirms .equal a b → h.Affirms .equal b a
  equal_trans : ∀ a b c, h.Affirms .equal a b → h.Affirms .equal b c → h.Affirms .equal a c
  equal_self : ∀ a, h.Affirms .equal a a ↔ ¬a.IsNaN
  /-- Every order has an answer for two numbers or two strings. -/
  order_ok : ∀ op : BinaryOp, op.IsOrder → ∀ a b, Value.Comparable a b →
    ∃ answer, h.binary op a b = .ok (.boolean answer)
  /-- No order has one for other values. -/
  order_error : ∀ op : BinaryOp, op.IsOrder → ∀ a b, ¬Value.Comparable a b →
    h.binary op a b = .error (.type (.comparison op a.kind b.kind))
  /-- What has no answer to one order, has none to any order, either way round. -/
  order_error_alike : ∀ op op' : BinaryOp, op.IsOrder → op'.IsOrder → ∀ a b,
    (∃ fault, h.binary op a b = .error (.type fault)) →
      (∃ fault, h.binary op' a b = .error (.type fault)) ∧ ∃ fault, h.binary op' b a = .error (.type fault)
  lessThan_iff : ∀ a b, h.Affirms .lessThan a b ↔ h.Affirms .greaterThan b a
  lessThanEqual_iff : ∀ a b, h.Affirms .lessThanEqual a b ↔ h.Affirms .greaterThanEqual b a
  /-- Without NaN, exactly one of three holds. -/
  trichotomy : ∀ a b, Value.Comparable a b → ¬a.IsNaN → ¬b.IsNaN →
    h.Affirms .lessThan a b ∧ ¬h.Affirms .equal a b ∧ ¬h.Affirms .greaterThan a b ∨
      ¬h.Affirms .lessThan a b ∧ h.Affirms .equal a b ∧ ¬h.Affirms .greaterThan a b ∨
      ¬h.Affirms .lessThan a b ∧ ¬h.Affirms .equal a b ∧ h.Affirms .greaterThan a b
  lessThanEqual_iff_or : ∀ a b, Value.Comparable a b →
    (h.Affirms .lessThanEqual a b ↔ h.Affirms .lessThan a b ∨ h.Affirms .equal a b)
  lessThan_trans : ∀ a b c, h.Affirms .lessThan a b → h.Affirms .lessThan b c → h.Affirms .lessThan a c
  /-- NaN is in no order with any number. -/
  order_nan : ∀ op : BinaryOp, op.IsOrder → ∀ a b, Value.Comparable a b → a.IsNaN ∨ b.IsNaN →
    h.binary op a b = .ok (.boolean false)
  /-- Strings are ordered by their code points, the first difference first. -/
  strings : ∀ s t, h.Affirms .lessThan (.string s) (.string t) ↔ List.Lex (· < ·) (codePoints s) (codePoints t)

/-- The comparison operators fit together on all values. -/
theorem comparisons_cohere (h : Heap) : h.ComparesCoherently where
  notEqual a b := ⟨a.equals b, rfl, rfl⟩
  equal_symm a b hab := affirms_equal_iff.2 (Value.equals_symm (affirms_equal_iff.1 hab))
  equal_trans a b c hab hbc :=
    affirms_equal_iff.2 (Value.equals_trans (affirms_equal_iff.1 hab) (affirms_equal_iff.1 hbc))
  equal_self a := affirms_equal_iff.trans Value.equals_self_iff
  order_ok op hop a b hab := ⟨_, binary_of_comparable hop hab⟩
  order_error op hop a b hab := binary_of_not_comparable hop hab
  order_error_alike := by
    rintro op op' hop hop' a b ⟨fault, hfault⟩
    have hab : ¬Value.Comparable a b := by
      intro hab
      rw [binary_of_comparable hop hab] at hfault
      exact nomatch hfault
    exact ⟨⟨_, binary_of_not_comparable hop' hab⟩, ⟨_, binary_of_not_comparable hop' (mt Value.Comparable.symm hab)⟩⟩
  lessThan_iff a b := (affirms_converse_iff .lessThan).symm
  lessThanEqual_iff a b := (affirms_converse_iff .lessThanEqual).symm
  -- Without NaN the order of two values is one of three, and each operator asks for some of them.
  trichotomy := by
    intro a b hab ha hb
    rw [affirms_iff .lessThan, affirms_iff .greaterThan, affirms_equal_iff, ← Value.compare?_eq_some_eq_iff hab]
    cases hc : a.compare? b with
    | none => exact absurd ((Value.compare?_eq_none_iff hab).1 hc) (not_or_intro ha hb)
    | some o => cases o <;> decide
  lessThanEqual_iff_or := by
    intro a b hab
    rw [affirms_iff .lessThanEqual, affirms_iff .lessThan, affirms_equal_iff, ← Value.compare?_eq_some_eq_iff hab]
    cases a.compare? b with
    | none => decide
    | some o => cases o <;> decide
  lessThan_trans a b c hab hbc :=
    affirms_lessThan_iff.2 (Value.compare?_trans (affirms_lessThan_iff.1 hab) (affirms_lessThan_iff.1 hbc))
  order_nan op hop a b hab hnan := by
    rw [binary_of_comparable hop hab, (Value.compare?_eq_none_iff hab).2 hnan]
    rfl
  strings s t := by
    have hlex : List.Lex (· < ·) (codePoints s) (codePoints t) ↔ s < t := codePoints_lt_iff
    rw [hlex, affirms_lessThan_iff]
    show some (compareStrings s t) = _ ↔ _
    rw [compareStrings_eq_cmp, Option.some_inj, cmp_eq_lt_iff]

/-- A code point of four bytes or two units comes behind every one below it. -/
example : ({} : Heap).Affirms .lessThan (.string "a\uffff") (.string "a😀") := by rfl

end Heap

end Lox
