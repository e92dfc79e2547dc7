import Lox.Proofs.Recovery.Resumption

/-!
# Reading any text comes to an end

However a text is malformed, reading it ends: each call that a parser makes precedes its own, and there is no endless
descent of calls (`wellFounded_precedes`). A round of a loop is a call of what is as tight as before, and so has fewer
items left to it. At the end nothing is left to be consumed, and the end mark comes again and again, so that no loop goes
on.
-/

namespace Lox

open Lox.Parser Lox.TokenStream

variable {α : Type} {p : Parser α} {s : TokenStream} {n bound : Nat}

/-! ## What is left -/

/-- What is left of the stream when something has been read or given up. -/
def ParsedOn.left? {α : Type} : Parsed α → Option TokenStream
  | ok _ rest _ => some rest
  | panic rest _ => some rest
  | starved => none

/-- Whatever ends leaves fewer items than its bound, or none. -/
theorem Parser.Ends.exists_left (h : Ends p s bound) : ∃ rest, (p s).left? = some rest ∧ rest.length < max bound 1 := by
  obtain ⟨a, rest, reports, hp, -, hrest⟩ | ⟨rest, reports, hp, -, hrest, -⟩ := h.alike.outcome
  · refine ⟨rest, ?_, Nat.lt_of_lt_of_le hrest (Nat.le_max_left _ _)⟩
    rw [hp, ParsedOn.left?]
  · refine ⟨rest, ?_, hrest⟩
    rw [hp, ParsedOn.left?]

namespace Reading

/-- There are steps enough to read anything, and then it does not matter how many. -/
theorem ends_read (r : Reading α) (s : TokenStream) : Ends r.read s (r.bound s) := by
  have hwithin := r.endsAs_within (Nat.lt_succ_self (20 * s.length + r.rank))
  exact (hwithin.ends.of_eq hwithin.same.symm).ends

/-- A declaration consumes something, whether it is read or given up. -/
theorem exists_left_declaration (hs : s.isAtEof = false) :
    ∃ rest, (declaration.read s).left? = some rest ∧ rest.length < s.length := by
  obtain ⟨rest, hrest, hlength⟩ := (ends_read declaration s).exists_left
  have hpos := length_pos_of_not_isAtEof hs
  have hbound : declaration.bound s = s.length := rfl
  exact ⟨rest, hrest, by omega⟩

/-- Where nothing is left, nothing will be. -/
theorem exists_left_of_nil (r : Reading α) (hs : s.upcoming = []) :
    ∃ rest, (r.read s).left? = some rest ∧ rest.upcoming = [] := by
  obtain ⟨rest, hrest, hlength⟩ := (ends_read r s).exists_left
  have hbound : r.bound s ≤ 1 := by
    have hzero : s.length = 0 := List.length_eq_zero_iff.2 hs
    unfold bound
    split <;> omega
  have hzero : rest.length = 0 := by omega
  exact ⟨rest, hrest, List.length_eq_zero_iff.1 hzero⟩

/-! ## Calls -/

/-- With steps enough, it makes no difference to a parser if every call is starved that does not precede its own. -/
theorem body_below (r : Reading α) (hn : 20 * s.length + r.rank ≤ n) :
    r.body (below (within n) r s) s = r.within (n + 1) s := by
  -- The starved calls do not precede, so that nothing is asked of them.
  have hbelow : EndsBelow (fun r' => below (within n) r s r') (fun r' => within n r') r s := by
    intro β r' s' hprecedes
    have hrank := r'.rank_lt
    have hread : EndsAs (r'.within n) r'.read s' (r'.bound s') := by
      refine r'.endsAs_within ?_
      rcases hprecedes with hlt | ⟨heq, hlt⟩ <;> omega
    have hcall : below (within n) r s r' s' = r'.within n s' := if_pos hprecedes
    exact hread.ends.of_eq hcall
  rw [within_succ]
  exact (endsAs_body r hbelow).same

/-- Among what is as tight, a call precedes another if it has fewer items left to it. -/
theorem precedes_iff_of_rank_eq {β : Type} {r : Reading α} {r' : Reading β} {s' : TokenStream} (hrank : r'.rank = r.rank) :
    r'.Precedes s' r s ↔ s'.length < s.length := by
  unfold Precedes
  omega

/-- Where nothing is left, only what is tighter is called, so that no loop goes on. -/
theorem rank_lt_of_precedes_of_nil {β : Type} {r : Reading α} {r' : Reading β} {s' : TokenStream} (hs : s.upcoming = [])
    (h : r'.Precedes s' r s) : r'.rank < r.rank := by
  have hzero : s.length = 0 := List.length_eq_zero_iff.2 hs
  unfold Precedes at h
  omega

end Reading

/-- Something that is read, and where. -/
structure Call where
  result : Type
  reading : Reading result
  stream : TokenStream

/-- One call precedes another. -/
def Call.Precedes (c c' : Call) : Prop :=
  c.reading.Precedes c.stream c'.reading c'.stream

/-- There is no endless descent of calls. -/
theorem wellFounded_precedes : WellFounded Call.Precedes := by
  have hlex : WellFounded (Prod.Lex (· < ·) (· < ·) : Nat × Nat → Nat × Nat → Prop) :=
    (Prod.lex Nat.lt_wfRel Nat.lt_wfRel).wf
  refine Subrelation.wf (fun {c c'} h => ?_) (InvImage.wf (fun c => (c.stream.length, c.reading.rank)) hlex)
  exact Prod.lex_def.2 h

/-! ## Resumption -/

namespace TokenStream

/-- At the end there is no semicolon to look for. -/
theorem behindSemicolon_of_nil (hs : s.upcoming = []) : s.behindSemicolon = s := by
  obtain ⟨items, ending⟩ := s
  obtain rfl : items = [] := hs
  rfl

/-- A semicolon that is next is consumed, and nothing else. -/
theorem behindSemicolon_of_starts (hs : s.Starts .semicolon) : s.behindSemicolon = s.advance := by
  obtain ⟨item, items, hupcoming, hcontent⟩ := hs
  have hnext : (!item.token?.any (Token.isSymbol .semicolon)) = false := by
    rw [Item.token?, hcontent]
    rfl
  rw [behindSemicolon, advance, hupcoming, List.dropWhile_cons, hnext, if_neg Bool.false_ne_true]

/-- Anything else is consumed, and the search goes on. -/
theorem behindSemicolon_of_not_starts (hs : s.upcoming ≠ []) (hstarts : ¬s.Starts .semicolon) :
    s.behindSemicolon = s.advance.behindSemicolon := by
  obtain ⟨item, items, hupcoming⟩ := List.exists_cons_of_ne_nil hs
  have hpeek : s.peek = item := by
    rw [peek, hupcoming]
    rfl
  have hnext : (!item.token?.any (Token.isSymbol .semicolon)) = true := by
    rw [← hpeek, Bool.not_eq_true', ← Bool.not_eq_true, any_token?_peek rfl]
    rintro ⟨t, ht, hsymbol⟩
    rw [Token.isSymbol_iff.1 hsymbol] at ht
    exact hstarts ht
  have hadvance : s.advance = { s with upcoming := items } := by
    rw [advance, hupcoming, List.tail_cons]
  rw [hadvance, behindSemicolon, behindSemicolon, hupcoming, List.dropWhile_cons, if_pos hnext]

/-- Where something is left, less is left behind the next item. -/
theorem length_advance_lt (hs : s.upcoming ≠ []) : s.advance.length < s.length := by
  have hpos : 0 < s.length := List.length_pos_iff.2 hs
  have hlt := s.length_advance_lt_max
  omega

/-- Where nothing is left, the end mark is next, and it is not consumed. -/
theorem next_of_nil (hs : s.upcoming = []) : s.next = (.eof s.ending, s) ∧ s.isAtEof = true := by
  obtain ⟨items, ending⟩ := s
  obtain rfl : items = [] := hs
  exact ⟨rfl, rfl⟩

end TokenStream

/-! ## Any text -/

/-- A text says what reading it to the end says. -/
theorem parse_eq_verdict (text : String) : Program.parse text = (Reading.program.read (ofText text)).verdict := by
  have hread := (Reading.program.endsAs_within (Grammar.lt_enoughSteps text)).same
  rw [← hread]
  exact Program.parse_eq text

/-- Reading comes to an end, on any text. What the parsers do with enough steps is what they do without counting them,
where every call precedes the one that makes it; if any other call is starved, this makes no difference. A call precedes
another if fewer items are left, or as many and what is read is tighter, so that calls do not descend forever, and a
further round of a loop has fewer items left. A declaration that does not start at the end consumes something, whether it
is read or given up; each round of the search for a semicolon does, unless nothing is left. Where nothing is left, the end
mark comes again and again, whoever reads on, and no loop has a further round. -/
theorem reading_ends :
    (∀ text, Program.parse text = (Reading.program.read (ofText text)).verdict) ∧
      (∀ {α : Type} (r : Reading α) (s : TokenStream) (n : Nat), 20 * s.length + r.rank ≤ n →
        r.within (n + 1) s = r.read s ∧ r.read s ≠ .starved ∧
          r.within (n + 1) s = r.body (Reading.within n) s ∧
          r.within (n + 1) s = r.body (Reading.below (Reading.within n) r s) s) ∧
      WellFounded Call.Precedes ∧
      (∀ {α β : Type} (r : Reading α) (r' : Reading β) (s s' : TokenStream), r'.rank = r.rank →
        (r'.Precedes s' r s ↔ s'.length < s.length)) ∧
      (∀ s : TokenStream, s.isAtEof = false →
        ∃ rest, (Reading.declaration.read s).left? = some rest ∧ rest.length < s.length) ∧
      (∀ s : TokenStream, skipPastSemicolon s = .ok () s.behindSemicolon [] ∧
        (s.Starts .semicolon → s.behindSemicolon = s.advance) ∧
        (s.upcoming ≠ [] → ¬s.Starts .semicolon → s.behindSemicolon = s.advance.behindSemicolon) ∧
        (s.upcoming ≠ [] → s.advance.length < s.length)) ∧
      ∀ s : TokenStream, s.upcoming = [] →
        s.next = (.eof s.ending, s) ∧ s.isAtEof = true ∧ s.behindSemicolon = s ∧
          (∀ {α : Type} (r : Reading α), ∃ rest, (r.read s).left? = some rest ∧ rest.upcoming = []) ∧
          ∀ {α β : Type} (r : Reading α) (r' : Reading β) (s' : TokenStream), r'.Precedes s' r s → r'.rank < r.rank := by
  refine ⟨parse_eq_verdict, fun r s n hn => ?_, wellFounded_precedes, fun r r' s s' => Reading.precedes_iff_of_rank_eq,
    fun s => Reading.exists_left_declaration, fun s => ?_, fun s hs => ?_⟩
  · have hbody : r.within (n + 1) s = r.body (Reading.within n) s := by rw [Reading.within_succ]
    exact ⟨(r.endsAs_within (Nat.lt_succ_of_le hn)).same, (r.ends_read s).ne_starved, hbody, (r.body_below hn).symm⟩
  · exact ⟨rfl, behindSemicolon_of_starts, behindSemicolon_of_not_starts, length_advance_lt⟩
  · obtain ⟨hnext, heof⟩ := next_of_nil hs
    exact ⟨hnext, heof, behindSemicolon_of_nil hs, fun r => r.exists_left_of_nil hs,
      fun r r' s' => Reading.rank_lt_of_precedes_of_nil hs⟩

/-- The parameters that this text starts have no end; they are given up there, and the end mark is still next. -/
theorem reading_ends_openParameters :
    let s := ofText "fun f(a,"
    Program.parse "fun f(a," = (Reading.program.read s).verdict ∧ program 121 s = Reading.program.read s ∧
      (∃ rest, (Reading.declaration.read s).left? = some rest ∧ rest.length < s.length) ∧
      s.behindSemicolon = s.advance.behindSemicolon ∧ s.advance.length < s.length ∧
      ∃ rest, ((Reading.parametersFrom 1).read ⟨[], s.ending⟩).left? = some rest ∧ rest.upcoming = [] := by
  intro s
  obtain ⟨hparse, hsteps, -, -, hdeclaration, hskip, hend⟩ := reading_ends
  obtain ⟨-, -, hsearch, hadvance⟩ := hskip s
  obtain ⟨hread, -, -, -⟩ := hsteps .program s 120 (by decide)
  obtain ⟨-, -, -, hothers, -⟩ := hend ⟨[], s.ending⟩ rfl
  have hfirst : ¬s.Starts .semicolon := by
    rintro ⟨item, items, hitems, hsemicolon⟩
    obtain ⟨rfl, -⟩ := List.cons.inj hitems
    exact nomatch hsemicolon
  exact ⟨hparse _, hread, hdeclaration s (by decide), hsearch (by decide) hfirst, hadvance (by decide),
    hothers (.parametersFrom 1)⟩

end Lox
