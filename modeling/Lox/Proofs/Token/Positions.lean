import Mathlib.Data.List.DropRight
import Lox.Proofs.Token.Lines

/-!
# Where items stand

Scanning moves a position along with every character that it passes. What that comes to is told from the text alone: the
place behind a text is on the line that its newlines count, and its column is the length of what follows the last of
them (`Position.past_isBehind`). So every item stands behind what is before its lexeme, the end mark behind the whole
text, and each item stands before the next one (`positions_exact`).
-/

namespace Lox

/-- The place behind a text: its newlines count the lines, and the characters behind the last newline, or all of them if
there is none, count the columns. -/
structure Position.IsBehind (p : Position) (before : List Char) : Prop where
  line : p.line = before.count '\n'
  column : p.column = (before.rtakeWhile (· ≠ '\n')).length

variable {p : Position}

/-- A position that has been moved along a text is the place behind the text. -/
theorem Position.past_isBehind (before : List Char) : (Position.past {} before).IsBehind before := by
  induction before using List.reverseRecOn with
  | nil => exact ⟨rfl, rfl⟩
  | append_singleton before c ih =>
    obtain ⟨hline, hcolumn⟩ := ih
    rw [past_append, past_cons, past_nil]
    by_cases hc : c = '\n'
    · subst hc
      rw [advance, if_pos rfl]
      refine ⟨?_, ?_⟩
      · rw [List.count_append, ← hline]
        rfl
      · rw [List.rtakeWhile_concat_neg _ _ _ (by simp)]
        rfl
    · rw [advance, if_neg hc]
      refine ⟨?_, ?_⟩
      · rw [List.count_append, ← hline, List.count_singleton, beq_false_of_ne hc]
        rfl
      · rw [List.rtakeWhile_concat_pos _ _ _ (by simp [hc]), List.length_append, ← hcolumn]
        rfl

/-! ## The items of a division -/

/-- An item is that of a piece; the items before it are those of the pieces before, and it stands behind these. -/
theorem Yields.split {pieces : List (List Char)} {items earlier later : List Item} {item : Item}
    (h : Yields p pieces items) (hitems : items = earlier ++ item :: later) :
    ∃ before piece after, pieces = before ++ piece :: after ∧ Yields p before earlier ∧ Slice piece item.content ∧
      item.position = p.past before.flatten := by
  induction h generalizing earlier with
  | nil => exact absurd hitems (by simp)
  | @separator p first pieces items hfirst _ ih =>
    obtain ⟨before, piece, after, rfl, hbefore, hpiece, hposition⟩ := ih hitems
    refine ⟨first :: before, piece, after, rfl, .separator hfirst hbefore, hpiece, ?_⟩
    rw [hposition, List.flatten_cons, Position.past_append]
  | @slice p first pieces items content hfirst _ ih =>
    cases earlier with
    | nil =>
      obtain ⟨rfl, -⟩ := List.cons.inj hitems
      exact ⟨[], first, pieces, rfl, .nil p, hfirst, rfl⟩
    | cons other earlier =>
      obtain ⟨rfl, hmore⟩ := List.cons.inj hitems
      obtain ⟨before, piece, after, rfl, hbefore, hpiece, hposition⟩ := ih hmore
      refine ⟨first :: before, piece, after, rfl, .slice hfirst hbefore, hpiece, ?_⟩
      rw [hposition, List.flatten_cons, Position.past_append]

/-! ## The end of the text -/

/-- A text leads to a later place unless it is empty. -/
theorem Position.before_past (p : Position) (c : Char) (rest : List Char) : p.Before (p.past (c :: rest)) := by
  induction rest generalizing p c with
  | nil => exact p.before_advance c
  | cons d rest ih => exact (p.before_advance c).trans (ih (p.advance c) d)

/-- Every item of a text stands before its end. -/
theorem before_past_of_mem_scanFrom {skip : Nat} {cs : List Char} :
    ∀ item ∈ scanFrom p skip cs, item.position.Before (p.past cs) := by
  induction cs generalizing p skip with
  | nil => cases skip <;> exact nofun
  | cons c rest ih =>
    intro item hitem
    cases skip with
    | succ skip => exact ih item hitem
    | zero =>
      rw [scanFrom] at hitem
      split_ifs at hitem
      · exact ih item hitem
      · exact ih item hitem
      · rcases List.mem_cons.1 hitem with rfl | hitem
        · exact p.before_past c rest
        · exact ih item hitem

/-- Positions are exact. A text has a division into pieces each of which is the longest at its place. Whichever item of
the text is looked at, those before it are the items of some first pieces, and it stands behind these: either the next
piece is its lexeme, or there is no other piece, and it is the end mark. So every item stands before those that follow
it. -/
theorem positions_exact (text : String) :
    (∃ pieces, pieces.flatten = text.toList ∧ IsDivided pieces ∧
      ∀ earlier item later, scan text = earlier ++ item :: later →
        ∃ before, Yields {} before earlier ∧ item.position.IsBehind before.flatten ∧
          ((∃ piece after, pieces = before ++ piece :: after ∧ Slice piece item.content) ∨
            before = pieces ∧ item.content = .ok .eof ∧ later = [])) ∧
    (scan text).Pairwise fun item later => item.position.Before later.position := by
  obtain ⟨pieces, hflatten, hdivided, hyields⟩ := exists_yields_scanFrom {} text.toList
  refine ⟨⟨pieces, hflatten, hdivided, fun earlier item later hscan => ?_⟩, ?_⟩
  · rcases List.eq_nil_or_concat later with rfl | ⟨more, last, rfl⟩
    · -- The last item is the end mark.
      obtain ⟨rfl, rfl⟩ := List.append_singleton_inj.1 ((scan_eq text).symm.trans hscan)
      refine ⟨pieces, hyields, ?_, .inr ⟨rfl, rfl, rfl⟩⟩
      rw [hflatten]
      exact Position.past_isBehind text.toList
    · have hlast : scan text = (earlier ++ item :: more) ++ [last] := by simp [hscan]
      have hitems : scanItems text = earlier ++ item :: more := (List.append_singleton_inj.1 ((scan_eq text).symm.trans hlast)).1
      obtain ⟨before, piece, after, hpieces, hbefore, hpiece, hposition⟩ := hyields.split hitems
      refine ⟨before, hbefore, ?_, .inl ⟨piece, after, hpieces, hpiece⟩⟩
      rw [hposition]
      exact Position.past_isBehind _
  · rw [scan_eq, List.pairwise_append]
    refine ⟨pairwise_scanFrom {} 0 text.toList, List.pairwise_singleton _ _, fun item hitem last hlast => ?_⟩
    obtain rfl := List.mem_singleton.1 hlast
    exact before_past_of_mem_scanFrom item hitem

/-- A string over two lines, a comment, and a character that starts nothing. -/
example : (scan "\"é\nb\" ; // $\n\t$").map Item.position = [⟨0, 0⟩, ⟨1, 3⟩, ⟨2, 1⟩, ⟨2, 2⟩] := by
  rw [scan_eq]
  rfl

end Lox
