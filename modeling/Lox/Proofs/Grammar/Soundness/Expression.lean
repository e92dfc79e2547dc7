import Lox.Proofs.Grammar.Precedence
import Lox.Proofs.Grammar.Spelling

/-!
# Expressions that are read are derived

Whatever a parser of expressions reads without a report, the grammar derives: there is a derivation of the tokens read
that means what was read. The proof is by induction on the steps given, over all these parsers at once
(`SoundExpressions`). Where operators or accesses are read in a loop, what was read before is a derivation already, and
the loop makes it longer.
-/

namespace Lox.Grammar

open Lox.Parser Lox.TokenStream

/-- What the parsers of expressions read in so many steps is derived. -/
structure SoundExpressions (n : Nat) : Prop where
  expressionAt : ∀ {level s e rest}, Reads (expressionAt n level) s e rest →
    ∃ d : Derivation (.expression level), d.tree = e ∧ s.Spells d.tokens rest
  operationsAfter : ∀ {level s e rest} (left : Derivation (.expression (.between level))),
    Reads (operationsAfter n level left.tree) s e rest →
    ∃ (d : Derivation (.expression (.between level))) (ts : List Token),
      d.tree = e ∧ d.tokens = left.tokens ++ ts ∧ s.Spells ts rest
  accessesAfter : ∀ {s e rest} (object : Derivation (.expression .call)),
    Reads (accessesAfter n object.tree) s e rest →
    ∃ (d : Derivation (.expression .call)) (ts : List Token),
      d.tree = e ∧ d.tokens = object.tokens ++ ts ∧ s.Spells ts rest
  expressions : ∀ {listing s es rest}, Reads (expressions n listing) s es rest →
    ∃ (count : Nat) (d : Derivation (.listing count)),
      d.tree = es ∧ s.Spells (d.tokens ++ [.symbol listing.close]) rest ∧
        (listing = .arguments → count ≤ mostArguments)
  expressionsFrom : ∀ {listing before s es rest}, Reads (expressionsFrom n listing before) s es rest →
    ∃ (count : Nat) (d : Derivation (.expressions count)),
      d.tree = es ∧ s.Spells (d.tokens ++ [.symbol listing.close]) rest ∧
        (listing = .arguments → before + count ≤ mostArguments)

variable {n : Nat} {s mid rest : TokenStream}

/-- What is assigned to is a variable, a property or an element, and so a call; its assignment is derived. -/
theorem assignment_of_target {d : Derivation (.expression (.between .or))} {v : Derivation (.expression .assignment)}
    {e : Expr} (h : Expr.assignment? d.tree v.tree = some e) :
    ∃ d' : Derivation (.expression .assignment), d'.tree = e ∧ d'.tokens = d.tokens ++ .symbol .equal :: v.tokens := by
  -- What stands on its own has the rank zero; properties and elements do not.
  have not_primary {e : Expr} (p : Derivation (.expression .primary)) (hp : p.tree = e) (hrank : e.rank = 1) :
      False := by
    have hle := p.tree_rank_le
    rw [hp, hrank] at hle
    exact absurd hle (by decide)
  unfold Expr.assignment? at h
  split at h
  · -- a variable
    rename_i name htree
    obtain rfl := Option.some.inj h
    obtain ⟨d', hd', htokens⟩ := d.lowerToCall (by decide) (by rw [htree]; exact Nat.zero_le 1)
    rw [htree] at hd'
    cases d' with
    | uncalled p =>
      cases p with
      | atom a => cases a <;> exact nomatch hd'
      | named name' =>
        obtain rfl := Expr.variable.inj hd'
        exact ⟨.assignVariable name' v, rfl, by rw [← htokens]; rfl⟩
      | _ => exact nomatch hd'
    | _ => exact nomatch hd'
  · -- a property
    rename_i object name htree
    obtain rfl := Option.some.inj h
    obtain ⟨d', hd', htokens⟩ := d.lowerToCall (by decide) (by rw [htree]; exact Nat.le_refl 1)
    rw [htree] at hd'
    cases d' with
    | property o name' =>
      obtain ⟨rfl, rfl⟩ := Expr.get.inj hd'
      exact ⟨.assignProperty o name' v, rfl, by rw [← htokens, Derivation.tokens_assignProperty]⟩
    | uncalled p => exact (not_primary p hd' rfl).elim
    | _ => exact nomatch hd'
  · -- an element
    rename_i object position htree
    obtain rfl := Option.some.inj h
    obtain ⟨d', hd', htokens⟩ := d.lowerToCall (by decide) (by rw [htree]; exact Nat.le_refl 1)
    rw [htree] at hd'
    cases d' with
    | element o p =>
      obtain ⟨rfl, rfl⟩ := Expr.index.inj hd'
      exact ⟨.assignElement o p v, rfl, by rw [← htokens, Derivation.tokens_assignElement]⟩
    | uncalled p => exact (not_primary p hd' rfl).elim
    | _ => exact nomatch hd'
  · exact nomatch h

/-- An assignment that is read is derived, and so is what is read at its level and assigned to nothing. -/
theorem SoundExpressions.assignment (h : SoundExpressions n) {e : Expr}
    (hread : Reads (Lox.expressionAt (n + 1) .assignment) s e rest) :
    ∃ d : Derivation (.expression .assignment), d.tree = e ∧ s.Spells d.tokens rest := by
  rw [Lox.expressionAt] at hread
  obtain ⟨target, mid, htarget, hafter⟩ := reads_bind.1 hread
  obtain ⟨position, mid', hequal, hend⟩ := reads_bind.1 hafter
  obtain ⟨d, rfl, hd⟩ := h.expressionAt htarget
  rcases reads_takeSymbol?.1 hequal with ⟨hstarts, rfl, rfl⟩ | ⟨-, rfl, rfl⟩
  · obtain ⟨value, mid'', hvalue, hresult⟩ := reads_bind.1 hend
    obtain ⟨v, rfl, hv⟩ := h.expressionAt hvalue
    cases hassign : Expr.assignment? d.tree v.tree with
    | none =>
      -- What cannot be assigned to is reported.
      rw [hassign] at hresult
      obtain ⟨u, mid₃, hreport, -⟩ := reads_bind.1 hresult
      exact absurd hreport not_reads_report
    | some e' =>
      rw [hassign] at hresult
      obtain ⟨rfl, rfl⟩ := reads_pure.1 hresult
      obtain ⟨d', hd', htokens⟩ := assignment_of_target hassign
      refine ⟨d', hd', ?_⟩
      rw [htokens, spells_append]
      exact ⟨_, hd, hstarts, hv⟩
  · obtain ⟨rfl, rfl⟩ := reads_pure.1 hend
    exact ⟨.unassigned d, rfl, hd⟩

/-- A ternary that is read is derived, and so is what is read at its level and tests nothing. -/
theorem SoundExpressions.ternary (h : SoundExpressions n) {e : Expr}
    (hread : Reads (Lox.expressionAt (n + 1) .ternary) s e rest) :
    ∃ d : Derivation (.expression .ternary), d.tree = e ∧ s.Spells d.tokens rest := by
  rw [Lox.expressionAt] at hread
  obtain ⟨test, mid, htest, hafter⟩ := reads_bind.1 hread
  obtain ⟨d, rfl, hd⟩ := h.expressionAt htest
  rcases reads_ifSymbol.1 hafter with ⟨hquestion, hbranches⟩ | ⟨-, hend⟩
  · obtain ⟨ifTrue, mid₁, hifTrue, hcolon⟩ := reads_bind.1 hbranches
    obtain ⟨u, mid₂, hexpect, hother⟩ := reads_bind.1 hcolon
    obtain ⟨ifFalse, mid₃, hifFalse, hend⟩ := reads_bind.1 hother
    obtain ⟨a, rfl, ha⟩ := h.expressionAt hifTrue
    obtain ⟨b, rfl, hb⟩ := h.expressionAt hifFalse
    obtain ⟨hstarts, rfl⟩ := reads_expectSymbol.1 hexpect
    obtain ⟨rfl, rfl⟩ := reads_pure.1 hend
    exact ⟨.choice d a b, rfl, spells_append.2 ⟨_, spells_append.2 ⟨_, hd, hquestion, ha⟩, hstarts, hb⟩⟩
  · obtain ⟨rfl, rfl⟩ := reads_pure.1 hend
    exact ⟨.unconditional d, rfl, hd⟩

/-- What is read between operators is derived. -/
theorem SoundExpressions.between (h : SoundExpressions n) {level : InfixLevel} {e : Expr}
    (hread : Reads (Lox.expressionAt (n + 1) (.between level)) s e rest) :
    ∃ d : Derivation (.expression (.between level)), d.tree = e ∧ s.Spells d.tokens rest := by
  rw [Lox.expressionAt, operand_eq_operandLevel] at hread
  obtain ⟨first, mid, hfirst, hafter⟩ := reads_bind.1 hread
  obtain ⟨d, rfl, hd⟩ := h.expressionAt hfirst
  obtain ⟨d', ts, hd', htokens, hts⟩ := h.operationsAfter (.operand d) hafter
  refine ⟨d', hd', ?_⟩
  rw [htokens, spells_append]
  exact ⟨mid, hd, hts⟩

/-- What is read behind prefix signs is derived. -/
theorem SoundExpressions.unary (h : SoundExpressions n) {e : Expr}
    (hread : Reads (Lox.expressionAt (n + 1) .unary) s e rest) :
    ∃ d : Derivation (.expression .unary), d.tree = e ∧ s.Spells d.tokens rest := by
  rw [Lox.expressionAt] at hread
  obtain ⟨sign, mid, hsign, hafter⟩ := reads_bind.1 hread
  rcases (reads_takeSome rfl).1 hsign with ⟨t, op, hstarts, hop, rfl, rfl⟩ | ⟨-, rfl, rfl⟩
  · obtain ⟨operand, mid', hoperand, hend⟩ := reads_bind.1 hafter
    obtain ⟨d, rfl, hd⟩ := h.expressionAt hoperand
    obtain ⟨rfl, rfl⟩ := reads_pure.1 hend
    obtain rfl := unaryOp?_eq_some_iff.1 hop
    exact ⟨.signed op d, rfl, hstarts, hd⟩
  · obtain ⟨d, rfl, hd⟩ := h.expressionAt hafter
    exact ⟨.unsigned d, rfl, hd⟩

/-- A chain of calls and accesses that is read is derived. -/
theorem SoundExpressions.call (h : SoundExpressions n) {e : Expr}
    (hread : Reads (Lox.expressionAt (n + 1) .call) s e rest) :
    ∃ d : Derivation (.expression .call), d.tree = e ∧ s.Spells d.tokens rest := by
  rw [Lox.expressionAt] at hread
  obtain ⟨first, mid, hfirst, hafter⟩ := reads_bind.1 hread
  obtain ⟨d, rfl, hd⟩ := h.expressionAt hfirst
  obtain ⟨d', ts, hd', htokens, hts⟩ := h.accessesAfter (.uncalled d) hafter
  refine ⟨d', hd', ?_⟩
  rw [htokens, spells_append]
  exact ⟨mid, hd, hts⟩

/-- What is read that stands on its own is derived. -/
theorem SoundExpressions.primary (h : SoundExpressions n) {e : Expr}
    (hread : Reads (Lox.expressionAt (n + 1) .primary) s e rest) :
    ∃ d : Derivation (.expression .primary), d.tree = e ∧ s.Spells d.tokens rest := by
  rw [Lox.expressionAt] at hread
  -- The item is taken whatever it is, and only then looked at.
  obtain ⟨item, mid, hitem, hafter⟩ := reads_bind.1 hread
  obtain ⟨rfl, rfl⟩ := reads_next.1 hitem
  cases hpeek : s.peek.content with
  | error e =>
    rw [hpeek] at hafter
    exact absurd hafter not_reads_fail
  | ok t =>
    rw [hpeek] at hafter
    cases hexpression : t.expression? with
    | some e' =>
      simp only [hexpression] at hafter
      obtain ⟨rfl, rfl⟩ := reads_pure.1 hafter
      rcases expression?_eq_some_iff.1 hexpression with ⟨a, rfl, rfl⟩ | ⟨name, rfl, rfl⟩
      · exact ⟨.atom a, rfl, starts_of_content_peek hpeek (by cases a <;> nofun), rfl⟩
      · exact ⟨.named name, rfl, starts_of_content_peek hpeek nofun, rfl⟩
    | none =>
      simp only [hexpression] at hafter
      split at hafter
      · -- `super`
        obtain ⟨u, mid₁, hexpect, hmethod⟩ := reads_bind.1 hafter
        obtain ⟨method, mid₂, hidentifier, hend⟩ := reads_bind.1 hmethod
        obtain ⟨hdot, rfl⟩ := reads_expectSymbol.1 hexpect
        obtain ⟨hname, rfl⟩ := reads_expectIdentifier.1 hidentifier
        obtain ⟨rfl, rfl⟩ := reads_pure.1 hend
        exact ⟨.superMethod method, rfl, starts_of_content_peek hpeek nofun, hdot, hname, rfl⟩
      · -- a group
        obtain ⟨inner, mid₁, hinner, hlast⟩ := reads_bind.1 hafter
        obtain ⟨u, mid₂, hexpect, hend⟩ := reads_bind.1 hlast
        obtain ⟨d, rfl, hd⟩ := h.expressionAt hinner
        obtain ⟨hclose, rfl⟩ := reads_expectSymbol.1 hexpect
        obtain ⟨rfl, rfl⟩ := reads_pure.1 hend
        exact ⟨.group d, rfl, starts_of_content_peek hpeek nofun, spells_append.2 ⟨_, hd, hclose, rfl⟩⟩
      · -- a sequence
        obtain ⟨items, mid₁, hitems, hend⟩ := reads_bind.1 hafter
        obtain ⟨count, d, rfl, hd, -⟩ := h.expressions hitems
        obtain ⟨rfl, rfl⟩ := reads_pure.1 hend
        exact ⟨.list d, rfl, starts_of_content_peek hpeek nofun, hd⟩
      · -- Anything else is reported, be it a binary operator or not.
        split at hafter
        · obtain ⟨u, mid₁, hreport, -⟩ := reads_bind.1 hafter
          exact absurd hreport not_reads_report
        · exact absurd hafter not_reads_fail

/-- The operators of a level that are read make a derivation longer. -/
theorem SoundExpressions.operations (h : SoundExpressions n) {level : InfixLevel} {e : Expr}
    (left : Derivation (.expression (.between level)))
    (hread : Reads (Lox.operationsAfter (n + 1) level left.tree) s e rest) :
    ∃ (d : Derivation (.expression (.between level))) (ts : List Token),
      d.tree = e ∧ d.tokens = left.tokens ++ ts ∧ s.Spells ts rest := by
  rw [Lox.operationsAfter, operand_eq_operandLevel] at hread
  obtain ⟨operator, mid, hoperator, hafter⟩ := reads_bind.1 hread
  rcases (reads_takeSome (by cases level <;> rfl)).1 hoperator with ⟨t, op, hstarts, hop, rfl, rfl⟩ | ⟨-, rfl, rfl⟩
  · obtain ⟨right, mid', hright, hothers⟩ := reads_bind.1 hafter
    obtain ⟨r, rfl, hr⟩ := h.expressionAt hright
    obtain ⟨hlevel, rfl⟩ := operator?_eq_some_iff.1 hop
    rw [apply_eq_infixTree] at hothers
    obtain ⟨d, ts, hd, htokens, hts⟩ := h.operationsAfter (.operation op hlevel left r) hothers
    refine ⟨d, infixToken op :: r.tokens ++ ts, hd, ?_, hstarts, spells_append.2 ⟨mid', hr, hts⟩⟩
    rw [htokens]
    simp [Derivation.tokens]
  · obtain ⟨rfl, rfl⟩ := reads_pure.1 hafter
    exact ⟨left, [], rfl, (List.append_nil _).symm, rfl⟩

/-- The calls and accesses that are read make a derivation longer. -/
theorem SoundExpressions.accesses (h : SoundExpressions n) {e : Expr} (object : Derivation (.expression .call))
    (hread : Reads (Lox.accessesAfter (n + 1) object.tree) s e rest) :
    ∃ (d : Derivation (.expression .call)) (ts : List Token),
      d.tree = e ∧ d.tokens = object.tokens ++ ts ∧ s.Spells ts rest := by
  rw [Lox.accessesAfter] at hread
  rcases reads_ifSymbol.1 hread with ⟨hopen, hcall⟩ | ⟨-, hread⟩
  · -- a call
    obtain ⟨arguments, mid, harguments, hothers⟩ := reads_bind.1 hcall
    obtain ⟨count, a, rfl, ha, hfew⟩ := h.expressions harguments
    obtain ⟨d, ts, hd, htokens, hts⟩ := h.accessesAfter (.call object a (hfew rfl)) hothers
    refine ⟨d, .symbol .leftParen :: (a.tokens ++ [.symbol .rightParen] ++ ts), hd, ?_, hopen,
      spells_append.2 ⟨mid, ha, hts⟩⟩
    rw [htokens]
    simp [Derivation.tokens]
  · rcases reads_ifSymbol.1 hread with ⟨hdot, hget⟩ | ⟨-, hread⟩
    · -- a property
      obtain ⟨name, mid, hidentifier, hothers⟩ := reads_bind.1 hget
      obtain ⟨hname, rfl⟩ := reads_expectIdentifier.1 hidentifier
      obtain ⟨d, ts, hd, htokens, hts⟩ := h.accessesAfter (.property object name) hothers
      refine ⟨d, .symbol .dot :: .identifier name :: ts, hd, ?_, hdot, hname, hts⟩
      rw [htokens]
      simp [Derivation.tokens]
    · rcases reads_ifSymbol.1 hread with ⟨hopen, hindex⟩ | ⟨-, hend⟩
      · -- an element
        obtain ⟨position, mid, hposition, hlast⟩ := reads_bind.1 hindex
        obtain ⟨u, mid', hexpect, hothers⟩ := reads_bind.1 hlast
        obtain ⟨p, rfl, hp⟩ := h.expressionAt hposition
        obtain ⟨hclose, rfl⟩ := reads_expectSymbol.1 hexpect
        obtain ⟨d, ts, hd, htokens, hts⟩ := h.accessesAfter (.element object p) hothers
        refine ⟨d, .symbol .leftBracket :: (p.tokens ++ .symbol .rightBracket :: ts), hd, ?_, hopen,
          spells_append.2 ⟨mid, hp, hclose, hts⟩⟩
        rw [htokens]
        simp [Derivation.tokens]
      · obtain ⟨rfl, rfl⟩ := reads_pure.1 hend
        exact ⟨object, [], rfl, (List.append_nil _).symm, rfl⟩

/-- A list of expressions that is read is derived, together with what ends it. -/
theorem SoundExpressions.listing (h : SoundExpressions n) {listing : Listing} {es : List Expr}
    (hread : Reads (Lox.expressions (n + 1) listing) s es rest) :
    ∃ (count : Nat) (d : Derivation (.listing count)),
      d.tree = es ∧ s.Spells (d.tokens ++ [.symbol listing.close]) rest ∧
        (listing = .arguments → count ≤ mostArguments) := by
  rw [Lox.expressions] at hread
  rcases reads_ifSymbol.1 hread with ⟨hclose, hend⟩ | ⟨-, hsome⟩
  · obtain ⟨rfl, rfl⟩ := reads_pure.1 hend
    exact ⟨0, .noExpression, rfl, ⟨hclose, rfl⟩, fun _ => Nat.zero_le _⟩
  · obtain ⟨count, d, rfl, hd, hfew⟩ := h.expressionsFrom hsome
    exact ⟨count, .someExpressions d, rfl, hd, fun hlisting => Nat.zero_add count ▸ hfew hlisting⟩

/-- The expressions of a list that are read are derived, together with what ends it; those of a call are not too
many. -/
theorem SoundExpressions.listingFrom (h : SoundExpressions n) {listing : Listing} {before : Nat} {es : List Expr}
    (hread : Reads (Lox.expressionsFrom (n + 1) listing before) s es rest) :
    ∃ (count : Nat) (d : Derivation (.expressions count)),
      d.tree = es ∧ s.Spells (d.tokens ++ [.symbol listing.close]) rest ∧
        (listing = .arguments → before + count ≤ mostArguments) := by
  rw [Lox.expressionsFrom] at hread
  obtain ⟨u, mid, hreport, hafter⟩ := reads_bind.1 hread
  obtain ⟨hroom, rfl⟩ := reads_reportIf.1 hreport
  obtain ⟨first, mid', hfirst, hothers⟩ := reads_bind.1 hafter
  obtain ⟨d, rfl, hd⟩ := h.expressionAt hfirst
  rcases reads_ifSymbol.1 hothers with ⟨hcomma, hmore⟩ | ⟨-, hlast⟩
  · obtain ⟨others, mid'', hfrom, hend⟩ := reads_bind.1 hmore
    obtain ⟨count, ds, rfl, hds, hfew⟩ := h.expressionsFrom hfrom
    obtain ⟨rfl, rfl⟩ := reads_pure.1 hend
    refine ⟨count + 1, .moreExpressions d ds, rfl, ?_, fun hlisting => ?_⟩
    · simp only [Derivation.tokens, List.append_assoc, List.cons_append]
      exact spells_append.2 ⟨mid', hd, hcomma, hds⟩
    · have := hfew hlisting
      omega
  · obtain ⟨u, mid'', hexpect, hend⟩ := reads_bind.1 hlast
    obtain ⟨hclose, rfl⟩ := reads_expectSymbol.1 hexpect
    obtain ⟨rfl, rfl⟩ := reads_pure.1 hend
    -- There was room for one more, since that there is none would have been reported.
    refine ⟨1, .lastExpression d, rfl, spells_append.2 ⟨mid', hd, hclose, rfl⟩, fun hlisting => ?_⟩
    subst hlisting
    simp only [Listing.isFull, decide_true, Bool.true_and, decide_eq_false_iff_not] at hroom
    exact Nat.not_le.1 hroom

/-- Whatever is read as an expression is derived. -/
theorem soundExpressions : ∀ n, SoundExpressions n
  | 0 => by
    constructor <;> intros <;> rename_i h <;> exact absurd h not_reads_starve
  | n + 1 => by
    have h := soundExpressions n
    refine ⟨fun {level s e rest} hread => ?_, h.operations, h.accesses, h.listing, h.listingFrom⟩
    cases level with
    | assignment => exact h.assignment hread
    | between level => exact h.between hread
    | ternary => exact h.ternary hread
    | unary => exact h.unary hread
    | call => exact h.call hread
    | primary => exact h.primary hread

end Lox.Grammar
