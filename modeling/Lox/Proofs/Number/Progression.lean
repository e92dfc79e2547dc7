import Mathlib.Data.Rat.Floor
import Lox.Machine.Step
import Lox.Proofs.Number.Value

/-!
# Ranges

A range takes numbers whose value is an integer of 64 bits (`integer_eq_ok_iff`), and makes the progression of all
integers that lie before the stop, from the start on by the step, each as the number nearest to it
(`range_progression`). An integer lies before the stop if the stop is a positive number of steps away from it, so that
both directions are treated as one. Where the next integer would leave 64 bits none is left before the stop, which is
within 64 bits itself.
-/

namespace Lox

namespace Number

variable {start stop step i : Int} {n : Nat}

/-! ## How far it is to the stop -/

/-- How many steps the stop is away. -/
def distance (stop step i : Int) : ℚ :=
  ((stop - i : Int) : ℚ) / step

/-- An integer lies before the stop if the stop is a positive number of steps away. -/
theorem isBefore_iff : isBefore stop step i = true ↔ 0 < distance stop step i := by
  rw [distance, div_pos_iff, Int.cast_pos, Int.cast_pos, Int.cast_lt_zero, Int.cast_lt_zero, isBefore, Bool.or_eq_true,
    Bool.and_eq_true, Bool.and_eq_true, decide_eq_true_eq, decide_eq_true_eq, decide_eq_true_eq, decide_eq_true_eq]
  omega

/-- So many steps on, the stop is so many steps nearer. -/
theorem distance_add (hstep : step ≠ 0) (k : Nat) :
    distance stop step (i + k * step) = distance stop step i - k := by
  have hne : (step : ℚ) ≠ 0 := Int.cast_ne_zero.2 hstep
  calc distance stop step (i + k * step) = (((stop - i : Int) : ℚ) - k * step) / step := by
        rw [distance]
        push_cast
        ring
    _ = distance stop step i - k := by rw [sub_div, mul_div_cancel_right₀ _ hne, distance]

/-- So many steps on, an integer lies before the stop if the stop is more steps away. -/
theorem isBefore_add_iff (hstep : step ≠ 0) (k : Nat) :
    isBefore stop step (i + k * step) = true ↔ (k : ℚ) < distance stop step i := by
  rw [isBefore_iff, distance_add hstep, sub_pos]

/-- How many integers lie before the stop, going by the step. -/
def countBefore (stop step i : Int) : Nat :=
  ⌈distance stop step i⌉.toNat

/-- The integers that lie before the stop are the first ones, so many. -/
theorem isBefore_add_iff_lt (hstep : step ≠ 0) (k : Nat) :
    isBefore stop step (i + k * step) = true ↔ k < countBefore stop step i := by
  rw [isBefore_add_iff hstep, countBefore, Int.lt_toNat, Int.lt_ceil, Int.cast_natCast]

/-- None lies before the stop if not even the first does. -/
theorem countBefore_eq_zero (hstep : step ≠ 0) (hafter : ¬isBefore stop step i = true) : countBefore stop step i = 0 := by
  have hnone : ¬0 < countBefore stop step i := by
    rw [← isBefore_add_iff_lt hstep 0, Int.natCast_zero, Int.zero_mul, Int.add_zero]
    exact hafter
  omega

/-- If the first lies before the stop, then besides it those that do from the next one on. -/
theorem countBefore_eq_succ (hstep : step ≠ 0) (hbefore : isBefore stop step i = true) :
    countBefore stop step i = countBefore stop step (i + step) + 1 := by
  have hnext : distance stop step (i + step) = distance stop step i - 1 := by
    have hone : distance stop step (i + (1 : Nat) * step) = distance stop step i - (1 : Nat) := distance_add hstep 1
    rwa [Int.natCast_one, Int.one_mul, Nat.cast_one] at hone
  have hpos : 0 < ⌈distance stop step i⌉ := Int.ceil_pos.2 (isBefore_iff.1 hbefore)
  rw [countBefore, countBefore, hnext, Int.ceil_sub_one]
  omega

/-! ## Within 64 bits -/

/-- Whether an integer fits 64 signed bits, as two inequalities. -/
theorem fitsInt64_iff : fitsInt64 i = true ↔ -2 ^ 63 ≤ i ∧ i < 2 ^ 63 := by
  rw [fitsInt64, Bool.and_eq_true, decide_eq_true_eq, decide_eq_true_eq, int64Min, int64Max]
  omega

/-- Where the next integer leaves 64 bits, it does not lie before a stop that is within 64 bits. -/
theorem not_isBefore_of_overflow (hi : fitsInt64 i = true) (hstop : fitsInt64 stop = true)
    (hoverflow : ¬fitsInt64 (i + step) = true) : ¬isBefore stop step (i + step) = true := by
  rw [fitsInt64_iff] at hi hstop hoverflow
  simp only [isBefore, Bool.or_eq_true, Bool.and_eq_true, decide_eq_true_eq]
  omega

/-- Integers that lie before a stop within 64 bits are within 64 bits, if the first of them is. -/
theorem fitsInt64_of_isBefore (hi : fitsInt64 i = true) (hstop : fitsInt64 stop = true) (k : Nat)
    (hbefore : isBefore stop step (i + k * step) = true) : fitsInt64 (i + k * step) = true := by
  rw [fitsInt64_iff] at *
  simp only [isBefore, Bool.or_eq_true, Bool.and_eq_true, decide_eq_true_eq] at hbefore
  rcases hbefore with ⟨hup, hbelow⟩ | ⟨hdown, habove⟩
  · have hforth : 0 ≤ (k : Int) * step := Int.mul_nonneg (Int.natCast_nonneg k) hup.le
    omega
  · have hback : (k : Int) * step ≤ 0 := Int.mul_nonpos_of_nonneg_of_nonpos (Int.natCast_nonneg k) hdown.le
    omega

/-! ## Progressions -/

/-- So many integers, each a step behind the one before it, as numbers. -/
def numbersFrom (step i : Int) (n : Nat) : List Value :=
  (List.range n).map fun (k : Nat) => .number (Float.ofInt (i + k * step))

/-- The first of the integers, and the others. -/
theorem numbersFrom_succ : numbersFrom step i (n + 1) = .number (Float.ofInt i) :: numbersFrom step (i + step) n := by
  rw [numbersFrom, List.range_succ_eq_map, List.map_cons, List.map_map, numbersFrom]
  refine congrArg₂ List.cons (by simp) (List.map_congr_left fun k _ => ?_)
  have hindex : i + ((k + 1 : Nat) : Int) * step = i + step + k * step := by
    push_cast
    ring
  rw [Function.comp_apply, hindex]

/-- The loop collects all integers that lie before the stop, whichever of its two exits it takes. -/
theorem toList_progressionFrom (hstep : step ≠ 0) (hstop : fitsInt64 stop = true) {collected : Array Value}
    (hi : fitsInt64 i = true) : (progressionFrom stop step i collected).toList =
      collected.toList ++ numbersFrom step i (countBefore stop step i) := by
  fun_induction progressionFrom stop step i collected with
  | case1 i collected hbefore collected' hfits ih =>
    calc (progressionFrom stop step (i + step) collected').toList
        = collected'.toList ++ numbersFrom step (i + step) (countBefore stop step (i + step)) := ih hfits
      _ = collected.toList ++ .number (Float.ofInt i) :: numbersFrom step (i + step) (countBefore stop step (i + step)) := by
        rw [Array.toList_push, List.append_assoc, List.singleton_append]
      _ = collected.toList ++ numbersFrom step i (countBefore stop step i) := by
        rw [countBefore_eq_succ hstep hbefore, numbersFrom_succ]
  | case2 i collected hbefore collected' hfits =>
    -- The sum overflows: what it would be does not lie before the stop, so that nothing is left out.
    have hnone := countBefore_eq_zero hstep (not_isBefore_of_overflow hi hstop hfits)
    rw [countBefore_eq_succ hstep hbefore, hnone, numbersFrom_succ, Array.toList_push]
    rfl
  | case3 i collected hafter =>
    rw [countBefore_eq_zero hstep hafter]
    exact (List.append_nil _).symm

/-- What a range from a start to a stop by a step is. -/
structure IsProgression (start stop step : Int) (xs : Array Value) : Prop where
  /-- It has as many elements as there are steps up to the stop, the last one perhaps not a whole one, or none. -/
  size : (xs.size : Int) = max 0 ⌈((stop - start : Int) : ℚ) / step⌉
  /-- An element is the number nearest to the start and so many steps. -/
  element : ∀ k < xs.size, xs[k]? = some (.number (Float.ofInt (start + k * step)))
  /-- Wherever a step leads from one element to the next, a sum of 64 bits is the exact one. -/
  sums : ∀ k, k + 1 < xs.size →
    (Int64.ofInt (start + k * step) + Int64.ofInt step).toInt = start + ((k + 1 : Nat) : Int) * step
  /-- Nothing that lies before the stop is left out, and nothing else is there. -/
  before : ∀ k : Nat, k < xs.size ↔
    0 < step ∧ start + k * step < stop ∨ step < 0 ∧ stop < start + k * step

/-- The numbers of a progression within 64 bits are a progression. -/
theorem isProgression_progression (hstart : fitsInt64 start = true) (hstop : fitsInt64 stop = true)
    (hfits : fitsInt64 step = true) (hstep : step ≠ 0) : IsProgression start stop step (progression start stop step) := by
  have hlist : (progression start stop step).toList = numbersFrom step start (countBefore stop step start) :=
    toList_progressionFrom hstep hstop hstart
  have hsize : (progression start stop step).size = countBefore stop step start := by
    rw [← Array.length_toList, hlist, numbersFrom, List.length_map, List.length_range]
  have hinside (k : Nat) (hk : k < countBefore stop step start) : fitsInt64 (start + k * step) = true :=
    fitsInt64_of_isBefore hstart hstop k ((isBefore_add_iff_lt hstep k).2 hk)
  refine ⟨?_, fun k hk => ?_, fun k hk => ?_, fun k => ?_⟩
  · rw [hsize, countBefore, Int.ofNat_toNat, max_comm, distance]
  · rw [← Array.getElem?_toList, hlist, numbersFrom, List.getElem?_map, List.getElem?_range (hsize ▸ hk)]
    rfl
  · have hnext := fitsInt64_iff.1 (hinside (k + 1) (hsize ▸ hk))
    have hthis := fitsInt64_iff.1 (hinside k (by omega))
    have hsum : start + ((k + 1 : Nat) : Int) * step = start + k * step + step := by
      push_cast
      ring
    rw [hsum] at hnext ⊢
    have hstep64 := fitsInt64_iff.1 hfits
    rw [Int64.toInt_add, Int64.toInt_ofInt_of_le hthis.1 hthis.2, Int64.toInt_ofInt_of_le hstep64.1 hstep64.2]
    exact Int.bmod_eq_of_le hnext.1 hnext.2
  · rw [hsize, ← isBefore_add_iff_lt hstep, isBefore]
    simp only [Bool.or_eq_true, Bool.and_eq_true, decide_eq_true_eq]

end Number

namespace Builtin

/-! ## The arguments -/

/-- A number whose value is an integer of 64 bits. -/
def IsInteger64 (v : Value) (i : Int) : Prop :=
  ∃ x, v = .number x ∧ Number.value? x = some (i : ℚ) ∧ -2 ^ 63 ≤ i ∧ i < 2 ^ 63

/-- A builtin that expects integers takes the numbers that are integers of 64 bits, all of them and nothing else. -/
theorem integer_eq_ok_iff {b : Builtin} {v : Value} {i : Int} : b.integer v = .ok i ↔ IsInteger64 v i := by
  cases v with
  | number x =>
    simp only [integer, IsInteger64, Value.number.injEq, exists_eq_left', ← Number.whole?_eq_some_iff,
      ← Number.fitsInt64_iff]
    cases hwhole : Number.whole? x with
    | none => simp
    | some j => by_cases hfits : Number.fitsInt64 j = true <;> simp [hfits] <;> grind
  | _ => simp [integer, IsInteger64]

/-- Which start, stop and step the arguments of a range are. -/
inductive RangeBounds : List Value → Int → Int → Int → Prop
  /-- Only a stop. -/
  | upTo {v : Value} {stop : Int} (hstop : IsInteger64 v stop) : RangeBounds [v] 0 stop 1
  /-- A start and a stop. -/
  | between {v w : Value} {start stop : Int} (hstart : IsInteger64 v start) (hstop : IsInteger64 w stop) :
    RangeBounds [v, w] start stop 1
  /-- A start, a stop and a step other than zero. -/
  | stride {u v w : Value} {start stop step : Int} (hstart : IsInteger64 u start) (hstop : IsInteger64 v stop)
    (hstep : IsInteger64 w step) (hne : step ≠ 0) : RangeBounds [u, v, w] start stop step

variable {arguments : List Value} {start stop step : Int}

/-- The start, stop and step of a range are within 64 bits, and the step is not zero. -/
theorem RangeBounds.fitsInt64 (hbounds : RangeBounds arguments start stop step) :
    Number.fitsInt64 start = true ∧ Number.fitsInt64 stop = true ∧ Number.fitsInt64 step = true ∧ step ≠ 0 := by
  have hinteger {v : Value} {i : Int} : IsInteger64 v i → Number.fitsInt64 i = true := by
    rintro ⟨x, -, -, hlimits⟩
    exact Number.fitsInt64_iff.2 hlimits
  cases hbounds with
  | upTo hstop => exact ⟨rfl, hinteger hstop, rfl, Int.one_ne_zero⟩
  | between hstart hstop => exact ⟨hinteger hstart, hinteger hstop, rfl, Int.one_ne_zero⟩
  | stride hstart hstop hstep hne => exact ⟨hinteger hstart, hinteger hstop, hinteger hstep, hne⟩

/-- A range makes the progression from its start to its stop by its step. -/
theorem RangeBounds.run_range (hbounds : RangeBounds arguments start stop step) (time : Float) (h : Heap) :
    range.run time arguments h = .ok (.elements (Number.progression start stop step)) := by
  cases hbounds with
  | upTo hstop => simp only [run, integers, integer_eq_ok_iff.2 hstop, Except.map, rangeElements]
  | between hstart hstop =>
    simp only [run, integers, integer_eq_ok_iff.2 hstart, integer_eq_ok_iff.2 hstop, Except.map, rangeElements]
  | stride hstart hstop hstep hne =>
    simp only [run, integers, integer_eq_ok_iff.2 hstart, integer_eq_ok_iff.2 hstop, integer_eq_ok_iff.2 hstep,
      Except.map, rangeElements, if_neg hne]

/-- A range is the exact progression over all integers of 64 bits. It takes every number whose value is such an integer
and nothing else, and with any such start, stop and step other than zero its call comes to an end, with a sequence of
the progression. -/
theorem range_progression :
    (∀ v i, range.integer v = .ok i ↔ IsInteger64 v i) ∧
      ∀ arguments start stop step, RangeBounds arguments start stop step →
        ∃ xs, Number.IsProgression start stop step xs ∧ ∀ settings frames s, ∃ id h,
          Config.invoke settings (.builtin .range) arguments frames s = .yield (.sequence id) frames { s with heap := h } ∧
            h.sequence id = xs := by
  refine ⟨fun v i => integer_eq_ok_iff, fun arguments start stop step hbounds => ?_⟩
  obtain ⟨hstart, hstop, hstep, hne⟩ := hbounds.fitsInt64
  refine ⟨_, Number.isProgression_progression hstart hstop hstep hne, fun settings frames s => ?_⟩
  let new := s.heap.newSequence (Number.progression start stop step)
  have hinvoke : Config.invoke settings (.builtin .range) arguments frames s =
      .yield (.sequence new.1) frames { s with heap := new.2 } := by
    rw [Config.invoke, hbounds.run_range]
  exact ⟨new.1, new.2, hinvoke, by simp [new, Heap.newSequence, Heap.sequence]⟩

/-- A stride that leaves no room for a third element, and none for the sum that would be one. -/
theorem range_progression_stride :
    ∃ xs, Number.IsProgression 0 9000000000000000000 5000000000000000000 xs ∧ xs.size = 2 := by
  have hzero : IsInteger64 (.number 0) 0 := ⟨_, rfl, Number.whole?_eq_some_iff.1 (by decide +kernel), by decide⟩
  have hstop : IsInteger64 (.number 9e18) 9000000000000000000 :=
    ⟨_, rfl, Number.whole?_eq_some_iff.1 (by decide +kernel), by decide⟩
  have hstep : IsInteger64 (.number 5e18) 5000000000000000000 :=
    ⟨_, rfl, Number.whole?_eq_some_iff.1 (by decide +kernel), by decide⟩
  obtain ⟨xs, hxs, -⟩ := range_progression.2 _ _ _ _ (.stride hzero hstop hstep (by decide))
  have hsecond := (hxs.before 1).2 (by decide)
  have hthird := mt (hxs.before 2).1 (by decide)
  exact ⟨xs, hxs, by omega⟩

end Builtin

end Lox
