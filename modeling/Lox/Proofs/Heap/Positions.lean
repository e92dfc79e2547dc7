import Lox.Proofs.Heap.Deeds
import Lox.Proofs.Number.Value
import Lox.Value.Operator

/-!
# Positions in sequences

A value denotes a slot of a sequence if it is a finite number without a fractional part that is not negative and below
the length. `Heap.Checked` lists what the check of a position may come to, and the check comes to just that
(`slot_iff`). Slots obey the laws of arrays (`storesLikeAnArray`): what is stored in a slot is read from it, and
everything else stays as it was.
-/

namespace Lox

/-- A value is an integer if it is a finite number without a fractional part. Both zeros are the integer zero. -/
def Value.IsWhole (v : Value) (i : Int) : Prop :=
  ∃ x, v = .number x ∧ Number.value? x = some (i : ℚ)

/-- The integers that a number is are the one that is read off from it. -/
theorem Value.isWhole_number {x : Float} {i : Int} : (Value.number x).IsWhole i ↔ Number.whole? x = some i := by
  simp only [IsWhole, Value.number.injEq, exists_eq_left', Number.whole?_eq_some_iff]

/-- A value is one integer at most. -/
theorem Value.IsWhole.unique {v : Value} {i j : Int} (hi : v.IsWhole i) (hj : v.IsWhole j) : i = j := by
  obtain ⟨x, rfl, -⟩ := id hi
  rw [isWhole_number] at hi hj
  exact Option.some.inj (hi.symm.trans hj)

namespace Heap

variable {h : Heap} {id : SequenceId} {p v : Value} {r : Except RuntimeError Nat} {n : Nat}

/-- What the check of a position in a sequence may come to. -/
inductive Checked (h : Heap) (id : SequenceId) (p : Value) : Except RuntimeError Nat → Prop
  /-- A whole number from zero up to but not including the length is a slot. -/
  | slot {n : Nat} (hp : p.IsWhole n) (hn : n < (h.sequence id).size) : Checked h id p (.ok n)
  /-- Any other whole number is out of range, and is reported as the nearest 64-bit integer. -/
  | outOfRange {i : Int} (hp : p.IsWhole i) (hi : i < 0 ∨ (h.sequence id).size ≤ i) :
    Checked h id p (.error (.indexOutOfRange (Number.saturate i) (h.sequence id).size))
  /-- What is no number is no position. -/
  | noNumber (hp : ∀ x, p ≠ .number x) : Checked h id p (.error (.type (.position (h.text p))))
  /-- Nor is an infinite number or one that is none. -/
  | notFinite {x : Float} (hp : p = .number x) (hx : Number.value? x = none) :
    Checked h id p (.error (.type (.position (h.text p))))
  /-- Nor is a number with a fractional part. -/
  | fraction {x : Float} {q : ℚ} (hp : p = .number x) (hx : Number.value? x = some q) (hq : ∀ i : Int, q ≠ i) :
    Checked h id p (.error (.type (.position (h.text p))))

/-! ## The check of a position -/

/-- A whole number denotes a slot if it is in range. -/
theorem slot_of_isWhole {i : Int} (hp : p.IsWhole i) (id : SequenceId) :
    h.slot id p = if 0 ≤ i ∧ i < (h.sequence id).size then .ok i.toNat
      else .error (.indexOutOfRange (Number.saturate i) (h.sequence id).size) := by
  obtain ⟨x, rfl, hx⟩ := hp
  simp only [slot, Number.whole?_eq_some_iff.2 hx]

/-- What is no whole number denotes no slot. -/
theorem slot_of_not_isWhole (hp : ∀ i, ¬p.IsWhole i) (id : SequenceId) :
    h.slot id p = .error (.type (.position (h.text p))) := by
  cases p with
  | number x =>
    have hnone : Number.whole? x = none :=
      Option.eq_none_iff_forall_ne_some.2 fun i hi => hp i (Value.isWhole_number.2 hi)
    simp only [slot, hnone]
  | _ => rfl

/-- What is no whole number is not finite, has a fractional part, or is no number at all. -/
theorem checked_of_not_isWhole (hp : ∀ i, ¬p.IsWhole i) (id : SequenceId) :
    h.Checked id p (.error (.type (.position (h.text p)))) := by
  cases p with
  | number x =>
    cases hx : Number.value? x with
    | none => exact .notFinite rfl hx
    | some q =>
      refine .fraction rfl hx fun i hq => hp i ⟨x, rfl, ?_⟩
      rw [hx, hq]
  | _ => exact .noNumber nofun

/-- The check of a position comes to what is listed. -/
theorem checked_slot (h : Heap) (id : SequenceId) (p : Value) : h.Checked id p (h.slot id p) := by
  by_cases hp : ∃ i, p.IsWhole i
  · obtain ⟨i, hi⟩ := hp
    rw [slot_of_isWhole hi]
    split
    · rename_i hrange
      obtain ⟨n, rfl⟩ := Int.eq_ofNat_of_zero_le hrange.1
      exact .slot hi (Int.ofNat_lt.1 hrange.2)
    · rename_i hrange
      exact .outOfRange hi (by omega)
  · rw [not_exists] at hp
    rw [slot_of_not_isWhole hp]
    exact checked_of_not_isWhole hp id

/-- And to nothing else. -/
theorem Checked.slot_eq (hchecked : h.Checked id p r) : h.slot id p = r := by
  cases hchecked with
  | @slot n hp hn => rw [slot_of_isWhole hp, if_pos ⟨Int.natCast_nonneg n, Int.ofNat_lt.2 hn⟩, Int.toNat_natCast]
  | outOfRange hp hi => rw [slot_of_isWhole hp, if_neg (by omega)]
  | noNumber hp => exact slot_of_not_isWhole (fun i ⟨x, hx, _⟩ => hp x hx) id
  | notFinite hp hx =>
    refine slot_of_not_isWhole (fun i => ?_) id
    rintro ⟨y, hy, hi⟩
    obtain rfl := Value.number.inj (hp.symm.trans hy)
    exact nomatch hx.symm.trans hi
  | fraction hp hx hq =>
    refine slot_of_not_isWhole (fun i => ?_) id
    rintro ⟨y, hy, hi⟩
    obtain rfl := Value.number.inj (hp.symm.trans hy)
    exact hq i (Option.some.inj (hx.symm.trans hi))

/-- The check of a position comes to just what is listed. -/
theorem slot_iff : h.slot id p = r ↔ h.Checked id p r :=
  ⟨fun hr => hr ▸ checked_slot h id p, Checked.slot_eq⟩

/-- A slot is below the length of the sequence, and the position is its number. -/
theorem slot_eq_ok_iff : h.slot id p = .ok n ↔ p.IsWhole n ∧ n < (h.sequence id).size := by
  rw [slot_iff]
  constructor
  · intro hchecked
    cases hchecked with
    | slot hp hn => exact ⟨hp, hn⟩
  · rintro ⟨hp, hn⟩
    exact .slot hp hn

/-! ## Stores -/

/-- A store into a slot of a sequence leaves all other slots and all other sequences. -/
structure StoresLikeAnArray (h : Heap) (id : SequenceId) (n : Nat) (v : Value) (h' : Heap) : Prop where
  /-- What is stored is then in the slot. -/
  hit : (h'.sequence id)[n]? = some v
  /-- The other slots hold what they held. -/
  miss : ∀ k, k ≠ n → (h'.sequence id)[k]? = (h.sequence id)[k]?
  /-- The sequence is as long as it was. -/
  size : (h'.sequence id).size = (h.sequence id).size
  /-- The other sequences are as they were. -/
  others : ∀ t, t ≠ id → h'.sequence t = h.sequence t
  /-- So is everything else. -/
  rest : h' = { h with sequences := h'.sequences }

/-- A sequence that has a slot is there. -/
theorem there_of_lt_size (hn : n < (h.sequence id).size) : id.index < h.sequences.size := by
  rcases Nat.lt_or_ge id.index h.sequences.size with hlt | hge
  · exact hlt
  · rw [sequence, Array.getElem?_eq_none hge] at hn
    exact absurd hn (Nat.not_lt_zero n)

/-- A store into one sequence leaves the others, whether they are there or not. -/
theorem sequence_setElement_of_ne {t : SequenceId} (hne : t ≠ id) :
    (h.setElement id n v).sequence t = h.sequence t := by
  have hindex : id.index ≠ t.index := fun heq => hne (by cases t; cases id; exact congrArg _ heq.symm)
  simp only [sequence, setElement, Array.getElem?_modify, if_neg hindex]

/-- A store into a slot obeys the laws of arrays. -/
theorem storesLikeAnArray (hn : n < (h.sequence id).size) (v : Value) :
    h.StoresLikeAnArray id n v (h.setElement id n v) := by
  have hstored : (h.setElement id n v).sequence id = (h.sequence id).setIfInBounds n v :=
    ((Does.element id n v).elements (there_of_lt_size hn)).trans (if_pos rfl)
  refine ⟨?_, fun k hk => ?_, ?_, fun t ht => sequence_setElement_of_ne ht, rfl⟩
  · rw [hstored, Array.getElem?_setIfInBounds_self_of_lt hn]
  · rw [hstored, Array.getElem?_setIfInBounds_ne hk.symm]
  · rw [hstored, Array.size_setIfInBounds]

end Heap

end Lox
