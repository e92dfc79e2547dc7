import Lox.Proofs.Grammar.Precedence
import Lox.Proofs.Grammar.Spelling

/-!
# Expressions that are derived are read

Whatever the grammar derives is read, without a report, by a parser that has steps enough; what may stand behind it is
what does not make it longer. `Complete` says of each derivation which parser reads it and how. Operators and accesses
are read in loops, and so a derivation of their levels is found in the course of one: the parser comes to the tree, and
goes on. For each production of an expression there is a lemma here that makes of complete parts a complete whole.
-/

namespace Lox.Grammar

open Lox.Parser Lox.TokenStream

variable {n : Nat} {s mid rest : TokenStream} {level : Level}

/-! ## First tokens -/

/-- Whether an expression may begin with a token. -/
def beginsExpression : Token → Bool
  | .symbol .leftParen => true
  | .symbol .leftBracket => true
  | .symbol .minus => true
  | .symbol .bang => true
  | .symbol _ => false
  | .keyword .superWord => true
  | .eof => false
  | t => t.expression?.isSome

/-- An expression begins with a token that may begin one, and a call does not begin with a sign. -/
theorem Derivation.begins : {level : Level} → (d : Derivation (.expression level)) →
    ∃ t ts, d.tokens = t :: ts ∧ beginsExpression t = true ∧ (level.rank ≤ 1 → t.unaryOp? = none)
  | _, assignVariable name value => ⟨_, _, rfl, rfl, fun _ => rfl⟩
  | _, assignProperty object name value => by
    obtain ⟨t, ts, htokens, hbegins, -⟩ := object.begins
    exact ⟨t, _, by rw [tokens, htokens]; rfl, hbegins, fun h => absurd h (by decide)⟩
  | _, assignElement object position value => by
    obtain ⟨t, ts, htokens, hbegins, -⟩ := object.begins
    exact ⟨t, _, by rw [tokens, htokens]; rfl, hbegins, fun h => absurd h (by decide)⟩
  | _, unassigned e => by
    obtain ⟨t, ts, htokens, hbegins, -⟩ := e.begins
    exact ⟨t, ts, htokens, hbegins, fun h => absurd h (by decide)⟩
  -- From here to the signs the level is too loose for the last part to say anything.
  | _, @operation level op _ left right => by
    obtain ⟨t, ts, htokens, hbegins, -⟩ := left.begins
    have hrank := two_lt_between_rank level
    exact ⟨t, _, by rw [tokens, htokens]; rfl, hbegins, fun h => absurd h (by omega)⟩
  | _, @operand level e => by
    obtain ⟨t, ts, htokens, hbegins, -⟩ := e.begins
    have hrank := two_lt_between_rank level
    exact ⟨t, ts, htokens, hbegins, fun h => absurd h (by omega)⟩
  | _, choice test ifTrue ifFalse => by
    obtain ⟨t, ts, htokens, hbegins, -⟩ := test.begins
    exact ⟨t, _, by rw [tokens, htokens]; rfl, hbegins, fun h => absurd h (by decide)⟩
  | _, unconditional e => by
    obtain ⟨t, ts, htokens, hbegins, -⟩ := e.begins
    exact ⟨t, ts, htokens, hbegins, fun h => absurd h (by decide)⟩
  | _, signed op e => ⟨_, _, rfl, by cases op <;> rfl, fun h => absurd h (by decide)⟩
  | _, unsigned e => by
    obtain ⟨t, ts, htokens, hbegins, -⟩ := e.begins
    exact ⟨t, ts, htokens, hbegins, fun h => absurd h (by decide)⟩
  | _, call callee arguments few => by
    obtain ⟨t, ts, htokens, hbegins, hsign⟩ := callee.begins
    exact ⟨t, _, by rw [tokens, htokens]; rfl, hbegins, hsign⟩
  | _, property object name => by
    obtain ⟨t, ts, htokens, hbegins, hsign⟩ := object.begins
    exact ⟨t, _, by rw [tokens, htokens]; rfl, hbegins, hsign⟩
  | _, element object position => by
    obtain ⟨t, ts, htokens, hbegins, hsign⟩ := object.begins
    exact ⟨t, _, by rw [tokens, htokens]; rfl, hbegins, hsign⟩
  | _, uncalled e => by
    obtain ⟨t, ts, htokens, hbegins, hsign⟩ := e.begins
    exact ⟨t, ts, htokens, hbegins, fun _ => hsign (Nat.zero_le 1)⟩
  | _, atom a => ⟨_, _, rfl, by cases a <;> rfl, fun _ => by cases a <;> rfl⟩
  | _, named name => ⟨_, _, rfl, rfl, fun _ => rfl⟩
  | _, superMethod method => ⟨_, _, rfl, rfl, fun _ => rfl⟩
  | _, group e => ⟨_, _, rfl, rfl, fun _ => rfl⟩
  | _, list items => ⟨_, _, rfl, rfl, fun _ => rfl⟩

/-- So does a list of expressions, one at least. -/
theorem Derivation.begins_expressions {count : Nat} : (d : Derivation (.expressions count)) →
    ∃ t ts, d.tokens = t :: ts ∧ beginsExpression t = true
  | lastExpression e => by
    obtain ⟨t, ts, htokens, hbegins, -⟩ := e.begins
    exact ⟨t, ts, htokens, hbegins⟩
  | moreExpressions e others => by
    obtain ⟨t, ts, htokens, hbegins, -⟩ := e.begins
    exact ⟨t, _, by rw [tokens, htokens]; rfl, hbegins⟩

/-- A stream that starts with one token does not start with another. -/
theorem not_starts_of_starts {t t' : Token} (h : s.Starts t) (hne : t ≠ t') : ¬s.Starts t' :=
  fun h' => hne (h.unique h').symm

/-- Where tokens begin as an expression does, the stream does not start with what begins none. -/
theorem not_starts_of_begins {t u : Token} {us ts : List Token} (htokens : us = t :: ts)
    (hbegins : beginsExpression t = true) (hspell : s.Spells us rest) (hu : beginsExpression u = false) :
    ¬s.Starts u := by
  subst htokens
  refine not_starts_of_starts hspell.1 ?_
  rintro rfl
  rw [hu] at hbegins
  exact absurd hbegins Bool.false_ne_true

/-- An expression does not start with what begins none. -/
theorem not_starts_expression {d : Derivation (.expression level)} {u : Token} (hspell : s.Spells d.tokens rest)
    (hu : beginsExpression u = false) : ¬s.Starts u := by
  obtain ⟨t, ts, htokens, hbegins, -⟩ := d.begins
  exact not_starts_of_begins htokens hbegins hspell hu

/-! ## What may follow -/

/-- The next token, if there is one, makes no expression of the level longer. -/
def Stops (level : Level) (rest : TokenStream) : Prop :=
  ∀ t, rest.Starts t → level.rank < t.rank

/-- What stops a level stops a tighter one. -/
theorem Stops.mono {level' : Level} (h : Stops level rest) (hrank : level'.rank ≤ level.rank) : Stops level' rest :=
  fun t ht => Nat.lt_of_le_of_lt hrank (h t ht)

/-- A token that makes only looser expressions longer stops a level. -/
theorem stops_of_starts {t : Token} (h : rest.Starts t) (hrank : level.rank < t.rank) : Stops level rest := by
  intro t' ht'
  rwa [h.unique ht']

/-- Whatever stands on its own is not made longer. -/
theorem stops_primary : Stops .primary rest := by
  intro t _
  show 0 < t.rank
  unfold Token.rank
  split <;> decide

/-! ## The parser of each derivation -/

/-- The parser that reads what a derivation derives: it comes to the tree unless it is starved. -/
def Complete : {nt : Nonterminal} → Derivation nt → Prop
  | .program, d => ∀ n s rest, s.Spells d.tokens.dropLast rest → rest.isAtEof = true → Tries (program n) s d.tree rest
  | .declarations, d =>
    (∀ n s rest, s.Spells (d.tokens ++ [.symbol .rightBrace]) rest → Tries (blockRest n) s d.tree rest) ∧
      ∀ n s rest, s.Spells d.tokens rest → rest.isAtEof = true → Tries (program n) s d.tree rest
  | .declaration, d => ∀ n s rest, s.Spells d.tokens rest → ¬rest.Starts (.keyword .elseWord) →
    Tries (declaration n) s d.tree rest
  | .variable, d => ∀ n (s : TokenStream) rest, s.Spells d.tokens rest →
    Tries (variableDeclaration n) s.advance d.tree rest
  | .function, d => ∀ n s rest, s.Spells d.tokens rest → Tries (function n) s d.tree rest
  | .methods, d => ∀ n s rest, s.Spells (d.tokens ++ [.symbol .rightBrace]) rest → Tries (methods n) s d.tree rest
  | .statement ending, d => ∀ n s rest, s.Spells d.tokens rest →
    (ending = .opened → ¬rest.Starts (.keyword .elseWord)) → Tries (statement n) s d.tree rest
  | .loopStart, d => ∀ n s rest, s.Spells d.tokens rest → Tries (forInit n) s d.tree rest
  | .optional, d => ∀ {α : Type} (result : Option Expr → α) (symbol : Symbol) (fault : Fault) n s rest,
    beginsExpression (.symbol symbol) = false → Level.assignment.rank < (Token.symbol symbol).rank →
    s.Spells (d.tokens ++ [.symbol symbol]) rest →
    Tries (do
      if ← takeSymbol symbol then pure (result none)
      else
        let e ← expression n
        expectSymbol symbol fault
        pure (result (some e))) s (result d.tree) rest
  | .expression (.between level), d => ∀ n (s : TokenStream) rest, s.Spells d.tokens rest → Stops (operandLevel level) rest →
    expressionAt n (.between level) s = .starved ∨
      ∃ m, expressionAt n (.between level) s = operationsAfter m level d.tree rest
  | .expression .call, d => ∀ n (s : TokenStream) rest, s.Spells d.tokens rest →
    expressionAt n .call s = .starved ∨ ∃ m, expressionAt n .call s = accessesAfter m d.tree rest
  | .expression level, d => ∀ n s rest, s.Spells d.tokens rest → Stops level rest →
    Tries (expressionAt n level) s d.tree rest
  | .expressions count, d => ∀ n listing before s rest, (listing = .arguments → before + count ≤ mostArguments) →
    s.Spells (d.tokens ++ [.symbol listing.close]) rest → Tries (expressionsFrom n listing before) s d.tree rest
  | .listing count, d => ∀ n listing s rest, (listing = .arguments → count ≤ mostArguments) →
    s.Spells (d.tokens ++ [.symbol listing.close]) rest → Tries (Lox.expressions n listing) s d.tree rest

/-! ## Expressions -/

/-- What is found before operators or accesses is read if none follows. -/
theorem Complete.reads {level : Level} {d : Derivation (.expression level)} (h : Complete d)
    (hspell : s.Spells d.tokens rest) (hstop : Stops level rest) : Tries (expressionAt n level) s d.tree rest := by
  cases level with
  | between level =>
    rcases h n s rest hspell (hstop.mono (Nat.le_of_lt (operandLevel_rank_lt level))) with hn | ⟨m, hm⟩
    · exact .inl hn
    · -- An operator of the level would have a rank that what follows may not have.
      have hnone : ∀ t, rest.Starts t → level.operator? t = none := by
        intro t ht
        cases hop : level.operator? t with
        | none => rfl
        | some op =>
          obtain ⟨rfl, rfl⟩ := operator?_eq_some_iff.1 hop
          have hrank := hstop _ ht
          rw [infixToken_rank] at hrank
          exact absurd hrank (Nat.lt_irrefl _)
      have hend : Tries (operationsAfter m level d.tree) rest d.tree rest := by
        cases m with
        | zero => exact tries_starve
        | succ m =>
          rw [operationsAfter]
          exact Tries.bind (.inr (takeSome_of_not_starts (by cases level <;> rfl) hnone)) tries_pure
      unfold Tries Reads
      rwa [hm]
  | call =>
    rcases h n s rest hspell with hn | ⟨m, hm⟩
    · exact .inl hn
    · -- No access begins with what follows, which is of a looser rank.
      have hnot {symbol : Symbol} (hrank : (Token.symbol symbol).rank ≤ 1) : ¬rest.Starts (.symbol symbol) :=
        fun hstarts => absurd (hstop _ hstarts) (Nat.not_lt.2 hrank)
      have hend : Tries (accessesAfter m d.tree) rest d.tree rest := by
        cases m with
        | zero => exact tries_starve
        | succ m =>
          rw [accessesAfter]
          exact .ifNotSymbol (hnot (by decide)) <| .ifNotSymbol (hnot (by decide)) <|
            .ifNotSymbol (hnot (by decide)) tries_pure
      unfold Tries Reads
      rwa [hm]
  | assignment => exact h n s rest hspell hstop
  | ternary => exact h n s rest hspell hstop
  | unary => exact h n s rest hspell hstop
  | primary => exact h n s rest hspell hstop

/-- Behind an opening parenthesis a chain goes on with a call. -/
theorem accessesAfter_leftParen {object : Expr} (h : s.Starts (.symbol .leftParen)) :
    accessesAfter (n + 1) object s = (do
      let arguments ← expressions n .arguments
      accessesAfter n (.call object arguments)) s.advance := by
  rw [accessesAfter]
  exact ifSymbol_of_starts h

/-- Behind a dot a chain goes on with a property. -/
theorem accessesAfter_dot {object : Expr} (h : s.Starts (.symbol .dot)) :
    accessesAfter (n + 1) object s = (do
      let property ← expectIdentifier
      accessesAfter n (.get object property)) s.advance := by
  rw [accessesAfter]
  refine (ifSymbol_of_not_starts ?_).trans (ifSymbol_of_starts h)
  exact not_starts_of_starts h nofun

/-- Behind an opening bracket a chain goes on with a position. -/
theorem accessesAfter_leftBracket {object : Expr} (h : s.Starts (.symbol .leftBracket)) :
    accessesAfter (n + 1) object s = (do
      let position ← expressionAt n .assignment
      expectSymbol .rightBracket .indexUnclosed
      accessesAfter n (.index object position)) s.advance := by
  rw [accessesAfter]
  refine (ifSymbol_of_not_starts ?_).trans ((ifSymbol_of_not_starts ?_).trans (ifSymbol_of_starts h))
  · exact not_starts_of_starts h nofun
  · exact not_starts_of_starts h nofun

/-- What stands on its own begins a chain of calls. -/
theorem complete_uncalled {e : Derivation (.expression .primary)} (h : Complete e) : Complete (.uncalled e) := by
  intro n s rest hspell
  cases n with
  | zero => exact .inl rfl
  | succ n =>
    rw [expressionAt]
    rcases h n s rest hspell stops_primary with hn | hread
    · exact .inl (bind_of_starved hn)
    · exact .inr ⟨n, bind_of_reads hread⟩

/-- A chain goes on with a call. -/
theorem complete_call {count : Nat} {callee : Derivation (.expression .call)} {arguments : Derivation (.listing count)}
    {few : count ≤ mostArguments} (h : Complete callee) (harguments : Complete arguments) :
    Complete (.call callee arguments few) := by
  intro n s rest hspell
  rw [Derivation.tokens, List.append_assoc, List.cons_append] at hspell
  obtain ⟨mid, hcallee, hopen, hlisting⟩ := spells_append.1 hspell
  rcases h n s mid hcallee with hn | ⟨m, hm⟩
  · exact .inl hn
  cases m with
  | zero => exact .inl hm
  | succ m =>
    rw [hm, accessesAfter_leftParen hopen]
    rcases harguments m .arguments mid.advance rest (fun _ => few) hlisting with hn | hread
    · exact .inl (bind_of_starved hn)
    · exact .inr ⟨m, bind_of_reads hread⟩

/-- A chain goes on with a property. -/
theorem complete_property {object : Derivation (.expression .call)} {name : String} (h : Complete object) :
    Complete (.property object name) := by
  intro n s rest hspell
  obtain ⟨mid, hobject, hdot, hname, rfl⟩ := spells_append.1 hspell
  rcases h n s mid hobject with hn | ⟨m, hm⟩
  · exact .inl hn
  cases m with
  | zero => exact .inl hm
  | succ m =>
    rw [hm, accessesAfter_dot hdot]
    exact .inr ⟨m, bind_of_reads (reads_expectIdentifier.2 ⟨hname, rfl⟩)⟩

/-- A chain goes on with a position. -/
theorem complete_element {object : Derivation (.expression .call)} {position : Derivation (.expression .assignment)}
    (h : Complete object) (hposition : Complete position) : Complete (.element object position) := by
  intro n s rest hspell
  rw [Derivation.tokens, List.append_assoc, List.cons_append] at hspell
  obtain ⟨mid, hobject, hopen, hrest⟩ := spells_append.1 hspell
  obtain ⟨mid', hposition', hclose, rfl⟩ := spells_append.1 hrest
  rcases h n s mid hobject with hn | ⟨m, hm⟩
  · exact .inl hn
  cases m with
  | zero => exact .inl hm
  | succ m =>
    rw [hm, accessesAfter_leftBracket hopen]
    rcases hposition m mid.advance mid' hposition' (stops_of_starts hclose (by decide)) with hn | hread
    · exact .inl (bind_of_starved hn)
    · exact .inr ⟨m, (bind_of_reads hread).trans (bind_of_reads ((reads_expectSymbol (u := ())).2 ⟨hclose, rfl⟩))⟩

/-- An operand begins a chain of operators. -/
theorem complete_operand {level : InfixLevel} {e : Derivation (.expression (operandLevel level))} (h : Complete e) :
    Complete (.operand e) := by
  intro n s rest hspell hstop
  cases n with
  | zero => exact .inl rfl
  | succ n =>
    rw [expressionAt, operand_eq_operandLevel]
    rcases h.reads hspell hstop with hn | hread
    · exact .inl (bind_of_starved hn)
    · exact .inr ⟨n, bind_of_reads hread⟩

/-- A chain goes on with an operator of its level and an operand. -/
theorem complete_operation {level : InfixLevel} {op : InfixOp} {at_level : levelOf op = level}
    {left : Derivation (.expression (.between level))} {right : Derivation (.expression (operandLevel level))}
    (hleft : Complete left) (hright : Complete right) : Complete (.operation op at_level left right) := by
  intro n s rest hspell hstop
  obtain ⟨mid, hspell', hop, hrest⟩ := spells_append.1 hspell
  -- The operator stops what is read as an operand, and the left side is found in the course of the loop.
  have hrank : (operandLevel level).rank < (infixToken op).rank := by
    rw [infixToken_rank, at_level]
    exact operandLevel_rank_lt level
  rcases hleft n s mid hspell' (stops_of_starts hop hrank) with hn | ⟨m, hm⟩
  · exact .inl hn
  cases m with
  | zero => exact .inl hm
  | succ m =>
    have hstep : operationsAfter (m + 1) level left.tree mid = (do
        let right ← expressionAt m (operandLevel level)
        operationsAfter m level (op.apply left.tree right)) mid.advance := by
      rw [operationsAfter, operand_eq_operandLevel]
      exact bind_of_reads (takeSome_of_starts hop (operator?_eq_some_iff.2 ⟨at_level, rfl⟩))
    rw [hm, hstep]
    rcases hright.reads hrest hstop with hn | hread
    · exact .inl (bind_of_starved hn)
    · exact .inr ⟨m, (bind_of_reads hread).trans (by rw [apply_eq_infixTree]; rfl)⟩

/-- An operand without a question is read as a ternary. -/
theorem complete_unconditional {e : Derivation (.expression (.between .comparison))} (h : Complete e) :
    Complete (.unconditional e) := by
  intro n s rest hspell hstop
  cases n with
  | zero => exact tries_starve
  | succ n =>
    rw [expressionAt]
    refine (h.reads hspell (hstop.mono (by decide))).bind (.ifNotSymbol (fun hquestion => ?_) tries_pure)
    exact absurd (hstop _ hquestion) (by decide)

/-- A question is read, with both answers. -/
theorem complete_choice {test ifTrue ifFalse : Derivation (.expression (.between .comparison))} (htest : Complete test)
    (htrue : Complete ifTrue) (hfalse : Complete ifFalse) : Complete (.choice test ifTrue ifFalse) := by
  intro n s rest hspell hstop
  rw [Derivation.tokens] at hspell
  obtain ⟨mid, hspell', hcolon, hspell₃⟩ := spells_append.1 hspell
  obtain ⟨mid', hspell₁, hquestion, hspell₂⟩ := spells_append.1 hspell'
  cases n with
  | zero => exact tries_starve
  | succ n =>
    rw [expressionAt]
    refine (htest.reads hspell₁ (stops_of_starts hquestion (by decide))).bind (.ifSymbol hquestion ?_)
    refine (htrue.reads hspell₂ (stops_of_starts hcolon (by decide))).bind ((tries_expectSymbol hcolon).bind ?_)
    exact (hfalse.reads hspell₃ (hstop.mono (by decide))).bind tries_pure

/-- A chain of calls is read where there may be signs. -/
theorem complete_unsigned {e : Derivation (.expression .call)} (h : Complete e) : Complete (.unsigned e) := by
  intro n s rest hspell hstop
  obtain ⟨t, ts, htokens, -, hsign⟩ := e.begins
  -- What comes first is no sign, and so the parser goes straight to the chain.
  have hspell' := hspell
  rw [Derivation.tokens, htokens] at hspell'
  have hnone : ∀ t', s.Starts t' → t'.unaryOp? = none := by
    intro t' ht'
    rw [hspell'.1.unique ht']
    exact hsign (Nat.le_refl 1)
  cases n with
  | zero => exact tries_starve
  | succ n =>
    rw [expressionAt]
    exact Tries.bind (.inr (takeSome_of_not_starts rfl hnone)) (h.reads hspell (hstop.mono (by decide)))

/-- A sign is read, with what it stands before. -/
theorem complete_signed {op : UnaryOp} {e : Derivation (.expression .unary)} (h : Complete e) :
    Complete (.signed op e) := by
  intro n s rest hspell hstop
  cases n with
  | zero => exact tries_starve
  | succ n =>
    rw [expressionAt]
    refine Tries.bind (.inr (takeSome_of_starts hspell.1 (unaryOp?_eq_some_iff.2 rfl))) ?_
    exact (h.reads hspell.2 hstop).bind tries_pure

/-- What is assigned to nothing is read as an assignment. -/
theorem complete_unassigned {e : Derivation (.expression (.between .or))} (h : Complete e) :
    Complete (.unassigned e) := by
  intro n s rest hspell hstop
  have hnot : ¬rest.Starts (.symbol .equal) := fun hequal => absurd (hstop _ hequal) (by decide)
  cases n with
  | zero => exact tries_starve
  | succ n =>
    rw [expressionAt]
    exact (h.reads hspell (hstop.mono (by decide))).bind
      (Tries.bind (.inr (takeSymbol?_of_not_starts hnot)) tries_pure)

/-- A chain of calls, as what stands before the sign of an assignment. -/
def target (e : Derivation (.expression .call)) : Derivation (.expression (.between .or)) :=
  @Derivation.operand .or <| @Derivation.operand .and <| @Derivation.operand .equality <| .unconditional <|
    @Derivation.operand .comparison <| @Derivation.operand .term <| @Derivation.operand .factor <| .unsigned e

/-- A chain of calls is read where it is assigned to. -/
theorem complete_target {e : Derivation (.expression .call)} (h : Complete e) : Complete (target e) :=
  complete_operand <| complete_operand <| complete_operand <| complete_unconditional <|
    complete_operand <| complete_operand <| complete_operand <| complete_unsigned h

/-- An assignment to something that can be assigned to is read. -/
theorem tries_assignment {e : Derivation (.expression .call)} {value : Derivation (.expression .assignment)}
    {result : Expr} (he : Complete e) (hvalue : Complete value)
    (hassign : Expr.assignment? e.tree value.tree = some result)
    (hspell : s.Spells (e.tokens ++ .symbol .equal :: value.tokens) rest) (hstop : Stops .assignment rest) :
    Tries (expressionAt n .assignment) s result rest := by
  obtain ⟨mid, hspell', hequal, hvalue'⟩ := spells_append.1 hspell
  cases n with
  | zero => exact tries_starve
  | succ n =>
    rw [expressionAt]
    refine ((complete_target he).reads hspell' (stops_of_starts hequal (by decide))).bind ?_
    refine Tries.bind (.inr (takeSymbol?_of_starts hequal)) ((hvalue.reads hvalue' hstop).bind ?_)
    have htree : (target e).tree = e.tree := rfl
    rw [htree, hassign]
    exact tries_pure

/-- An assignment to a variable is read. -/
theorem complete_assignVariable {name : String} {value : Derivation (.expression .assignment)} (h : Complete value)
    (hnamed : Complete (.uncalled (.named name))) : Complete (.assignVariable name value) := fun _ _ _ hspell hstop =>
  tries_assignment hnamed h rfl hspell hstop

/-- An assignment to a property is read. -/
theorem complete_assignProperty {object : Derivation (.expression .call)} {name : String}
    {value : Derivation (.expression .assignment)} (hobject : Complete object) (h : Complete value) :
    Complete (.assignProperty object name value) := by
  intro n s rest hspell hstop
  refine tries_assignment (e := .property object name) (complete_property hobject) h rfl ?_ hstop
  simpa [Derivation.tokens] using hspell

/-- An assignment to an element is read. -/
theorem complete_assignElement {object : Derivation (.expression .call)}
    {position value : Derivation (.expression .assignment)} (hobject : Complete object) (hposition : Complete position)
    (h : Complete value) : Complete (.assignElement object position value) := by
  intro n s rest hspell hstop
  refine tries_assignment (e := .element object position) (complete_element hobject hposition) h rfl ?_ hstop
  simpa [Derivation.tokens] using hspell

/-- A token that is an expression on its own is read. -/
theorem tries_primary_token {t : Token} {e : Expr} (h : s.Starts t) (he : t.expression? = some e) :
    Tries (expressionAt n .primary) s e s.advance := by
  cases n with
  | zero => exact tries_starve
  | succ n =>
    rw [expressionAt]
    refine Tries.bind (.inr (reads_next.2 ⟨rfl, rfl⟩)) ?_
    simp only [content_peek_of_starts h, he]
    exact tries_pure

/-- Atoms are read. -/
theorem complete_atom (a : Atom) : Complete (.atom a) := by
  rintro n s rest ⟨hstarts, rfl⟩ -
  exact tries_primary_token hstarts (expression?_eq_some_iff.2 (.inl ⟨a, rfl, rfl⟩))

/-- Names are read. -/
theorem complete_named (name : String) : Complete (.named name) := by
  rintro n s rest ⟨hstarts, rfl⟩ -
  exact tries_primary_token hstarts (expression?_eq_some_iff.2 (.inr ⟨name, rfl, rfl⟩))

/-- Methods of the parent class are read. -/
theorem complete_superMethod (method : String) : Complete (.superMethod method) := by
  rintro n s rest ⟨hsuper, hdot, hname, rfl⟩ -
  cases n with
  | zero => exact tries_starve
  | succ n =>
    rw [expressionAt]
    refine Tries.bind (.inr (reads_next.2 ⟨rfl, rfl⟩)) ?_
    simp only [content_peek_of_starts hsuper]
    exact (tries_expectSymbol hdot).bind ((tries_expectIdentifier hname).bind tries_pure)

/-- Groups are read. -/
theorem complete_group {e : Derivation (.expression .assignment)} (h : Complete e) : Complete (.group e) := by
  rintro n s rest ⟨hopen, hspell⟩ -
  obtain ⟨mid, hspell', hclose, rfl⟩ := spells_append.1 hspell
  cases n with
  | zero => exact tries_starve
  | succ n =>
    rw [expressionAt]
    refine Tries.bind (.inr (reads_next.2 ⟨rfl, rfl⟩)) ?_
    simp only [content_peek_of_starts hopen]
    exact (h.reads hspell' (stops_of_starts hclose (by decide))).bind ((tries_expectSymbol hclose).bind tries_pure)

/-- Sequences are read. -/
theorem complete_list {count : Nat} {items : Derivation (.listing count)} (h : Complete items) :
    Complete (.list items) := by
  rintro n s rest ⟨hopen, hspell⟩ -
  cases n with
  | zero => exact tries_starve
  | succ n =>
    rw [expressionAt]
    refine Tries.bind (.inr (reads_next.2 ⟨rfl, rfl⟩)) ?_
    simp only [content_peek_of_starts hopen]
    exact Tries.bind (h n .elements s.advance rest nofun hspell) tries_pure

/-- The empty list is read. -/
theorem complete_noExpression : Complete .noExpression := by
  rintro n listing s rest - ⟨hclose, rfl⟩
  cases n with
  | zero => exact tries_starve
  | succ n =>
    rw [Lox.expressions]
    exact .ifSymbol hclose tries_pure

/-- A list of some expressions is read. -/
theorem complete_someExpressions {count : Nat} {es : Derivation (.expressions count)} (h : Complete es) :
    Complete (.someExpressions es) := by
  intro n listing s rest hfew hspell
  cases n with
  | zero => exact tries_starve
  | succ n =>
    rw [Lox.expressions]
    refine .ifNotSymbol ?_ (h n listing 0 s rest (by simpa using hfew) hspell)
    -- What ends the list begins no expression.
    obtain ⟨t, ts, htokens, hbegins⟩ := es.begins_expressions
    obtain ⟨mid, hspell', -⟩ := spells_append.1 hspell
    exact not_starts_of_begins htokens hbegins hspell' (by cases listing <;> rfl)

/-- One more is not too many where there is room for it. -/
theorem isFull_eq_false {listing : Listing} {before : Nat} (h : listing = .arguments → before < mostArguments) :
    listing.isFull before = false := by
  cases listing with
  | arguments => exact decide_eq_false (Nat.not_le.2 (h rfl))
  | elements => rfl

/-- The last expression of a list is read, with what ends the list. -/
theorem complete_lastExpression {e : Derivation (.expression .assignment)} (h : Complete e) :
    Complete (.lastExpression e) := by
  intro n listing before s rest hfew hspell
  obtain ⟨mid, hspell', hclose, rfl⟩ := spells_append.1 hspell
  have hstop : Stops .assignment mid := stops_of_starts hclose (by cases listing <;> decide)
  cases n with
  | zero => exact tries_starve
  | succ n =>
    rw [expressionsFrom]
    refine (tries_reportIf (isFull_eq_false hfew)).bind ((h.reads hspell' hstop).bind ?_)
    refine .ifNotSymbol (not_starts_of_starts hclose (by cases listing <;> nofun)) ?_
    exact (tries_expectSymbol hclose).bind tries_pure

/-- The first expression of a list is read, and the others behind the comma. -/
theorem complete_moreExpressions {count : Nat} {e : Derivation (.expression .assignment)}
    {others : Derivation (.expressions count)} (h : Complete e) (hothers : Complete others) :
    Complete (.moreExpressions e others) := by
  intro n listing before s rest hfew hspell
  rw [Derivation.tokens, List.append_assoc, List.cons_append] at hspell
  obtain ⟨mid, hspell', hcomma, hspell₁⟩ := spells_append.1 hspell
  have hroom : listing.isFull before = false := isFull_eq_false fun hlisting => by
    have := hfew hlisting
    omega
  cases n with
  | zero => exact tries_starve
  | succ n =>
    rw [expressionsFrom]
    refine (tries_reportIf hroom).bind ?_
    refine (h.reads hspell' (stops_of_starts hcomma (by decide))).bind (.ifSymbol hcomma ?_)
    refine Tries.bind (hothers n listing (before + 1) mid.advance rest (fun hlisting => ?_) hspell₁) tries_pure
    have := hfew hlisting
    omega

end Lox.Grammar
