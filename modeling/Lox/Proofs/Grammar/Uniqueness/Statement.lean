import Lox.Proofs.Grammar.Adequacy
import Lox.Proofs.Grammar.Completeness.Statement
import Lox.Proofs.Grammar.Uniqueness.Expression

/-!
# Derivations are unique

No two derivations of a nonterminal derive the same tokens (`unique_program`). What is read is determined by the
stream, and whatever is derived is read; so tokens that begin in two ways with what is derived from a nonterminal have
the same tree there, and the same tokens behind it. Expressions have only one derivation with a tree. Statements are
told apart by their first tokens, and then part by part.
-/

namespace Lox.Grammar

open Lox.Parser Lox.TokenStream

/-! ## What is read is determined -/

/-- A stream of some tokens. -/
def streamOf (ts : List Token) : TokenStream :=
  ⟨ts.map fun t => ⟨{}, .ok t⟩, {}⟩

/-- A stream of tokens spells them. -/
theorem spells_streamOf {ts us : List Token} : (streamOf (ts ++ us)).Spells ts (streamOf us) := by
  induction ts with
  | nil => rfl
  | cons t ts ih => exact ⟨⟨_, _, rfl, rfl⟩, ih⟩

/-- A stream of tokens spells whatever else they begin with. -/
theorem spells_streamOf_of_eq {ts ts' us us' : List Token} (h : ts ++ us = ts' ++ us') :
    (streamOf (ts ++ us)).Spells ts' (streamOf us') := by
  rw [h]
  exact spells_streamOf

/-- A stream of tokens starts with the first of them. -/
theorem starts_streamOf {t u : Token} {ts : List Token} : (streamOf (t :: ts)).Starts u ↔ u = t := by
  constructor
  · rintro ⟨item, items, hitems, hitem⟩
    obtain ⟨rfl, -⟩ := List.cons.inj hitems
    exact (Except.ok.inj hitem).symm
  · rintro rfl
    exact ⟨_, _, rfl, rfl⟩

/-- The stream of no token starts with none. -/
theorem not_starts_streamOf_nil {u : Token} : ¬(streamOf []).Starts u := by
  rintro ⟨item, items, hitems, -⟩
  exact nomatch hitems

/-- Streams of tokens are told apart by the tokens. -/
theorem streamOf_injective {ts us : List Token} (h : streamOf ts = streamOf us) : ts = us := by
  have hmap : ts.map (fun t : Token => (⟨{}, .ok t⟩ : Item)) = us.map fun t => ⟨{}, .ok t⟩ :=
    congrArg TokenStream.upcoming h
  refine (List.map_inj_right fun t u htu => ?_).1 hmap
  exact Except.ok.inj (congrArg Item.content htu)

variable {level : Level} {ts us us' : List Token}

/-- What follows stops a level if its first token does. -/
theorem stops_streamOf {t : Token} (h : level.rank < t.rank) : Stops level (streamOf (t :: us)) :=
  stops_of_starts (starts_streamOf.2 rfl) h

/-- Where nothing follows, every level stops. -/
theorem stops_streamOf_nil : Stops level (streamOf []) :=
  fun _ h => absurd h not_starts_streamOf_nil

/-- A parser that has steps enough reads one thing only. -/
theorem eq_of_tries {α : Type} {p : Parser α} {s : TokenStream} {a a' : α} {bound : Nat} (hends : Ends p s bound)
    (h : Tries p s a (streamOf us)) (h' : Tries p s a' (streamOf us')) : a = a' ∧ us = us' := by
  have hread := (h.resolve_left hends.ne_starved).symm.trans (h'.resolve_left hends.ne_starved)
  obtain ⟨ha, hrest, -⟩ := ParsedOn.ok.inj hread
  exact ⟨ha, streamOf_injective hrest⟩

namespace Derivation

/-- Tokens that begin with an expression do so in one way. -/
theorem split_expression (d d' : Derivation (.expression level)) (h : d.tokens ++ us = d'.tokens ++ us')
    (hstop : Stops level (streamOf us)) (hstop' : Stops level (streamOf us')) : d = d' ∧ us = us' := by
  have hspell' := spells_streamOf_of_eq h
  obtain ⟨htree, hus⟩ := eq_of_tries (ends_expressionAt level (Nat.lt_succ_self _))
    ((complete d).reads spells_streamOf hstop) ((complete d').reads hspell' hstop')
  exact ⟨tree_injective d d' htree, hus⟩

/-- Tokens that begin with a statement do so in one way, where an `else` that would belong to it does not follow. -/
theorem split_statement {ending ending' : Ending} (d : Derivation (.statement ending))
    (d' : Derivation (.statement ending')) (h : d.tokens ++ us = d'.tokens ++ us')
    (helse : ending = .opened → ¬(streamOf us).Starts (.keyword .elseWord))
    (helse' : ending' = .opened → ¬(streamOf us').Starts (.keyword .elseWord)) : us = us' := by
  have hspell' := spells_streamOf_of_eq h
  exact (eq_of_tries (ends_statement (Nat.lt_succ_self _))
    (complete d _ _ _ spells_streamOf helse) (complete d' _ _ _ hspell' helse')).2

/-- Tokens that begin with a declaration do so in one way, where no `else` follows. -/
theorem split_declaration (d d' : Derivation .declaration) (h : d.tokens ++ us = d'.tokens ++ us')
    (helse : ¬(streamOf us).Starts (.keyword .elseWord)) (helse' : ¬(streamOf us').Starts (.keyword .elseWord)) :
    us = us' := by
  have hspell' := spells_streamOf_of_eq h
  exact (eq_of_tries (ends_declaration (Nat.lt_succ_self _))
    (complete d _ _ _ spells_streamOf helse) (complete d' _ _ _ hspell' helse')).2

/-- Tokens that begin with a function do so in one way. -/
theorem split_function (d d' : Derivation .function) (h : d.tokens ++ us = d'.tokens ++ us') : us = us' := by
  have hspell' := spells_streamOf_of_eq h
  exact (eq_of_tries (ends_function (Nat.lt_succ_self _))
    (complete d _ _ _ spells_streamOf) (complete d' _ _ _ hspell')).2

/-- Tokens that begin with the start of a `for` loop do so in one way. -/
theorem split_loopStart (d d' : Derivation .loopStart) (h : d.tokens ++ us = d'.tokens ++ us') : us = us' := by
  have hspell' := spells_streamOf_of_eq h
  exact (eq_of_tries (ends_forInit (Nat.lt_succ_self _))
    (complete d _ _ _ spells_streamOf) (complete d' _ _ _ hspell')).2

/-- An expression that may be missing is derived in one way. -/
theorem tree_injective_optional (d d' : Derivation .optional) (h : d.tree = d'.tree) : d = d' := by
  cases d with
  | absent =>
    cases d' with
    | absent => rfl
    | present e => exact nomatch h
  | present e =>
    cases d' with
    | absent => exact nomatch h
    | present e' => rw [tree_injective e e' (Option.some.inj h)]

/-- Tokens that begin with an expression that may be missing, and a symbol behind it, do so in one way. -/
theorem split_optional (d d' : Derivation .optional) {symbol : Symbol}
    (h : (d.tokens ++ [.symbol symbol]) ++ us = (d'.tokens ++ [.symbol symbol]) ++ us')
    (hbegins : beginsExpression (.symbol symbol) = false)
    (hrank : Level.assignment.rank < (Token.symbol symbol).rank) : d = d' ∧ us = us' := by
  have hspell' := spells_streamOf_of_eq h
  obtain ⟨htree, hus⟩ := eq_of_tries (ends_optional id (Nat.lt_succ_self _))
    (complete d id symbol .loopConditionUnterminated _ _ _ hbegins hrank spells_streamOf)
    (complete d' id symbol .loopConditionUnterminated _ _ _ hbegins hrank hspell')
  exact ⟨tree_injective_optional d d' htree, hus⟩

/-- Tokens that begin with names between commas and a parenthesis do so in one way. -/
theorem split_names {ps ps' : List String} (hfew : ps.length ≤ mostArguments) (hfew' : ps'.length ≤ mostArguments)
    (h : (names ps ++ [.symbol .rightParen]) ++ us = (names ps' ++ [.symbol .rightParen]) ++ us') :
    ps = ps' ∧ us = us' := by
  have hspell' := spells_streamOf_of_eq h
  exact eq_of_tries (ends_parameters (Nat.lt_succ_self _)) (tries_parameters hfew spells_streamOf)
    (tries_parameters hfew' hspell')

/-! ## Tokens -/

/-- An expression does not begin with what begins none. -/
theorem tokens_ne {e : Derivation (.expression level)} {u : Token} (hu : beginsExpression u = false) :
    e.tokens ++ us ≠ u :: us' := by
  obtain ⟨t, ts, htokens, hbegins, -⟩ := e.begins
  rw [htokens]
  intro h
  obtain ⟨rfl, -⟩ := List.cons.inj h
  rw [hu] at hbegins
  exact absurd hbegins Bool.false_ne_true

/-- Nor does a statement begin with what begins none. -/
theorem statement_tokens_ne {ending : Ending} {st : Derivation (.statement ending)} {u : Token}
    (hu : beginsStatement u = false) : st.tokens ≠ u :: us := by
  obtain ⟨t, ts, htokens, hbegins⟩ := st.begins_statement
  rw [htokens]
  intro h
  obtain ⟨rfl, -⟩ := List.cons.inj h
  rw [hu] at hbegins
  exact absurd hbegins Bool.false_ne_true

/-- Nor does a variable declaration. -/
theorem variable_tokens_ne {v : Derivation .variable} {u : Token} (hu : u ≠ .keyword .varWord) :
    v.tokens ≠ u :: us := by
  obtain ⟨ts, htokens⟩ := v.begins_variable
  rw [htokens]
  intro h
  exact hu (List.cons.inj h).1.symm

/-- Expressions of the same tokens have the same derivation. -/
theorem unique_expression (d d' : Derivation (.expression level)) (h : d.tokens = d'.tokens) : d = d' := by
  have hsplit : d.tokens ++ [] = d'.tokens ++ [] := by rw [h]
  exact (split_expression d d' hsplit stops_streamOf_nil stops_streamOf_nil).1

/-- So do variable declarations. -/
theorem unique_variable (d d' : Derivation .variable) (h : d.tokens = d'.tokens) : d = d' := by
  cases d with
  | uninitialized name =>
    cases d' with
    | uninitialized name' =>
      obtain ⟨-, hname⟩ := List.cons.inj h
      rw [Token.identifier.inj (List.cons.inj hname).1]
    | initialized name' value => exact nomatch h
  | initialized name value =>
    cases d' with
    | uninitialized name' => exact nomatch h
    | initialized name' value' =>
      obtain ⟨-, hname⟩ := List.cons.inj h
      obtain ⟨hname, hequal⟩ := List.cons.inj hname
      obtain ⟨-, hvalue⟩ := List.cons.inj hequal
      rw [Token.identifier.inj hname, unique_expression value value' (List.append_cancel_right hvalue)]

/-- So does what starts a `for` loop. -/
theorem unique_loopStart (d d' : Derivation .loopStart) (h : d.tokens = d'.tokens) : d = d' := by
  cases d with
  | startNothing =>
    cases d' with
    | startNothing => rfl
    | startVariable v => exact absurd h.symm (variable_tokens_ne nofun)
    | startExpression e => exact absurd h.symm (tokens_ne rfl)
  | startVariable v =>
    cases d' with
    | startNothing => exact absurd h (variable_tokens_ne nofun)
    | startVariable v' => rw [unique_variable v v' h]
    | startExpression e =>
      obtain ⟨ts, htokens⟩ := v.begins_variable
      rw [tokens, tokens, htokens] at h
      exact absurd h.symm (tokens_ne rfl)
  | startExpression e =>
    cases d' with
    | startNothing => exact absurd h (tokens_ne rfl)
    | startVariable v =>
      obtain ⟨ts, htokens⟩ := v.begins_variable
      rw [tokens, tokens, htokens] at h
      exact absurd h (tokens_ne rfl)
    | startExpression e' => rw [unique_expression e e' (List.append_cancel_right h)]

/-- No `else` is next where declarations are on their own. -/
theorem not_starts_else_streamOf (d : Derivation .declarations) : ¬(streamOf d.tokens).Starts (.keyword .elseWord) := by
  have hspell : (streamOf (d.tokens ++ [])).Spells d.tokens (streamOf []) := spells_streamOf
  rw [List.append_nil] at hspell
  exact not_starts_else hspell not_starts_streamOf_nil

/-- A test in parentheses is told from what follows it. -/
theorem split_test (test test' : Derivation (.expression .assignment))
    (h : test.tokens ++ .symbol .rightParen :: us = test'.tokens ++ .symbol .rightParen :: us') :
    test = test' ∧ us = us' := by
  obtain ⟨htest, hus⟩ := split_expression test test' h (stops_streamOf (by decide)) (stops_streamOf (by decide))
  exact ⟨htest, (List.cons.inj hus).2⟩

/-- A branch that is closed is not a branch and an `else`. -/
theorem ne_tokens_else {ending ending' : Ending} (d : Derivation (.statement ending))
    (d' : Derivation (.statement .closed)) (other : Derivation (.statement ending')) :
    d.tokens ≠ d'.tokens ++ .keyword .elseWord :: other.tokens := by
  intro h
  have hsplit : d.tokens ++ [] = d'.tokens ++ .keyword .elseWord :: other.tokens := by
    rw [List.append_nil, h]
  exact nomatch split_statement d d' hsplit (fun _ => not_starts_streamOf_nil) nofun

mutual

/-- Declarations of the same tokens have the same derivation. -/
theorem unique_declarations : (d d' : Derivation .declarations) → d.tokens = d'.tokens → d = d'
  | noDeclaration, d', h => by
    cases d' with
    | noDeclaration => rfl
    | declarations first others =>
      obtain ⟨t, ts, htokens, -⟩ := first.begins_declaration
      rw [tokens, tokens, htokens] at h
      exact nomatch h
  | declarations first others, d', h => by
    cases d' with
    | noDeclaration =>
      obtain ⟨t, ts, htokens, -⟩ := first.begins_declaration
      rw [tokens, tokens, htokens] at h
      exact nomatch h
    | declarations first' others' =>
      -- What the first declarations leave is the same, and so the tokens of both are.
      have hothers :=
        split_declaration first first' h (not_starts_else_streamOf others) (not_starts_else_streamOf others')
      rw [tokens, tokens, hothers] at h
      rw [unique_declaration first first' (List.append_cancel_right h), unique_declarations others others' hothers]

/-- So does a declaration. -/
theorem unique_declaration : (d d' : Derivation .declaration) → d.tokens = d'.tokens → d = d'
  -- The first token tells the production, since no statement begins with the keyword of a declaration.
  | variableDeclaration v, d', h => by
    cases d' with
    | variableDeclaration v' => rw [unique_variable v v' h]
    | functionDeclaration f => exact absurd h (variable_tokens_ne nofun)
    | classDeclaration name parent body => cases parent <;> exact absurd h (variable_tokens_ne nofun)
    | statement st =>
      obtain ⟨ts, htokens⟩ := v.begins_variable
      rw [tokens, tokens, htokens] at h
      exact absurd h.symm (statement_tokens_ne rfl)
  | functionDeclaration f, d', h => by
    cases d' with
    | variableDeclaration v => exact absurd h.symm (variable_tokens_ne nofun)
    | functionDeclaration f' => rw [unique_function f f' (List.cons.inj h).2]
    | classDeclaration name parent body => cases parent <;> exact nomatch h
    | statement st => exact absurd h.symm (statement_tokens_ne rfl)
  | classDeclaration name none body, d', h => by
    cases d' with
    | variableDeclaration v => exact absurd h.symm (variable_tokens_ne nofun)
    | functionDeclaration f => exact nomatch h
    | classDeclaration name' parent' body' =>
      cases parent' with
      | none =>
        obtain ⟨hname, hbody⟩ := List.cons.inj (List.cons.inj h).2
        rw [Token.identifier.inj hname, unique_methods body body' (List.append_cancel_right (List.cons.inj hbody).2)]
      | some other => exact nomatch h
    | statement st => exact absurd h.symm (statement_tokens_ne rfl)
  | classDeclaration name (some parent) body, d', h => by
    cases d' with
    | variableDeclaration v => exact absurd h.symm (variable_tokens_ne nofun)
    | functionDeclaration f => exact nomatch h
    | classDeclaration name' parent' body' =>
      cases parent' with
      | none => exact nomatch h
      | some other =>
        obtain ⟨hname, hless⟩ := List.cons.inj (List.cons.inj h).2
        obtain ⟨hparent, hbody⟩ := List.cons.inj (List.cons.inj hless).2
        rw [Token.identifier.inj hname, Token.identifier.inj hparent,
          unique_methods body body' (List.append_cancel_right (List.cons.inj hbody).2)]
    | statement st => exact absurd h.symm (statement_tokens_ne rfl)
  | statement st, d', h => by
    cases d' with
    | variableDeclaration v =>
      obtain ⟨ts, htokens⟩ := v.begins_variable
      rw [tokens, tokens, htokens] at h
      exact absurd h (statement_tokens_ne rfl)
    | functionDeclaration f => exact absurd h (statement_tokens_ne rfl)
    | classDeclaration name parent body => cases parent <;> exact absurd h (statement_tokens_ne rfl)
    | statement st' =>
      cases unique_statement st st' h
      rfl

/-- So does a function. -/
theorem unique_function : (d d' : Derivation .function) → d.tokens = d'.tokens → d = d'
  | function name ps few body, d', h => by
    cases d' with
    | function name' ps' few' body' =>
      rw [tokens_function, tokens_function] at h
      obtain ⟨hname, hparen⟩ := List.cons.inj h
      obtain ⟨rfl, hbrace⟩ := split_names few few' (List.cons.inj hparen).2
      have hbody := List.append_cancel_right (List.cons.inj hbrace).2
      rw [unique_declarations body body' hbody]
      exact Token.identifier.inj hname ▸ rfl

/-- So do the methods of a class. -/
theorem unique_methods : (d d' : Derivation .methods) → d.tokens = d'.tokens → d = d'
  | noMethod, d', h => by
    cases d' with
    | noMethod => rfl
    | methods first others =>
      obtain ⟨name, ts, htokens⟩ := first.begins_function
      rw [tokens, tokens, htokens] at h
      exact nomatch h
  | methods first others, d', h => by
    cases d' with
    | noMethod =>
      obtain ⟨name, ts, htokens⟩ := first.begins_function
      rw [tokens, tokens, htokens] at h
      exact nomatch h
    | methods first' others' =>
      have hothers := split_function first first' h
      rw [tokens, tokens, hothers] at h
      rw [unique_function first first' (List.append_cancel_right h), unique_methods others others' hothers]

/-- So does a statement, and an `else` that follows it belongs to it in either case or in neither. -/
theorem unique_statement : {ending ending' : Ending} → (d : Derivation (.statement ending)) →
    (d' : Derivation (.statement ending')) → d.tokens = d'.tokens →
    (⟨ending, d⟩ : (e : Ending) × Derivation (.statement e)) = ⟨ending', d'⟩
  -- The first token tells a statement's production, but for that of an `if`.
  | _, _, expressionStatement e, d', h => by
    cases d' with
    | expressionStatement e' => rw [unique_expression e e' (List.append_cancel_right h)]
    | _ => exact absurd h (tokens_ne rfl)
  | _, _, print e, d', h => by
    cases d' with
    | expressionStatement e' => exact absurd h.symm (tokens_ne rfl)
    | print e' => rw [unique_expression e e' (List.append_cancel_right (List.cons.inj h).2)]
    | _ => exact nomatch h
  | _, _, block body, d', h => by
    cases d' with
    | expressionStatement e' => exact absurd h.symm (tokens_ne rfl)
    | block body' => rw [unique_declarations body body' (List.append_cancel_right (List.cons.inj h).2)]
    | _ => exact nomatch h
  | _, _, breakLoop, d', h => by
    cases d' with
    | expressionStatement e' => exact absurd h.symm (tokens_ne rfl)
    | breakLoop => rfl
    | _ => exact nomatch h
  | _, _, returnValue value, d', h => by
    cases d' with
    | expressionStatement e' => exact absurd h.symm (tokens_ne rfl)
    | returnValue value' =>
      have hvalue : (value.tokens ++ [.symbol .semicolon]) ++ [] = (value'.tokens ++ [.symbol .semicolon]) ++ [] := by
        rw [List.append_nil, List.append_nil]
        exact (List.cons.inj h).2
      rw [(split_optional value value' hvalue rfl (by decide)).1]
    | _ => exact nomatch h
  | _, _, ifThen test branch, d', h => by
    cases d' with
    | expressionStatement e' => exact absurd h.symm (tokens_ne rfl)
    | ifThen test' branch' =>
      obtain ⟨rfl, hbranch⟩ := split_test test test' (List.cons.inj (List.cons.inj h).2).2
      cases unique_statement branch branch' hbranch
      rfl
    | ifElse test' branch' other =>
      -- What follows the test would be a statement, and also a shorter one with an `else` behind it.
      have hsplit : test.tokens ++ .symbol .rightParen :: branch.tokens =
          test'.tokens ++ .symbol .rightParen :: (branch'.tokens ++ .keyword .elseWord :: other.tokens) := by
        simpa [tokens] using h
      exact absurd (split_test test test' hsplit).2 (ne_tokens_else branch branch' other)
    | _ => exact nomatch h
  | _, _, ifElse test branch other, d', h => by
    cases d' with
    | expressionStatement e' => exact absurd h.symm (tokens_ne rfl)
    | ifThen test' branch' =>
      have hsplit : test'.tokens ++ .symbol .rightParen :: branch'.tokens =
          test.tokens ++ .symbol .rightParen :: (branch.tokens ++ .keyword .elseWord :: other.tokens) := by
        simpa [tokens] using h.symm
      exact absurd (split_test test' test hsplit).2 (ne_tokens_else branch' branch other)
    | ifElse test' branch' other' =>
      have hsplit : test.tokens ++ .symbol .rightParen :: (branch.tokens ++ .keyword .elseWord :: other.tokens) =
          test'.tokens ++ .symbol .rightParen :: (branch'.tokens ++ .keyword .elseWord :: other'.tokens) := by
        simpa [tokens] using h
      obtain ⟨rfl, hbranches⟩ := split_test test test' hsplit
      -- Both first branches are closed, and so each ends where the other does, with an `else` behind it.
      have hother := split_statement branch branch' hbranches nofun nofun
      rw [hother] at hbranches
      cases unique_statement branch branch' (List.append_cancel_right hbranches)
      cases unique_statement other other' (List.cons.inj hother).2
      rfl
    | _ => exact nomatch h
  | _, _, whileLoop test body, d', h => by
    cases d' with
    | expressionStatement e' => exact absurd h.symm (tokens_ne rfl)
    | whileLoop test' body' =>
      obtain ⟨rfl, hbody⟩ := split_test test test' (List.cons.inj (List.cons.inj h).2).2
      cases unique_statement body body' hbody
      rfl
    | _ => exact nomatch h
  | _, _, forLoop start test increment body, d', h => by
    cases d' with
    | expressionStatement e' => exact absurd h.symm (tokens_ne rfl)
    | forLoop start' test' increment' body' =>
      rw [tokens_forLoop, tokens_forLoop] at h
      -- Clause after clause is told from what follows it.
      have hclauses := (List.cons.inj (List.cons.inj h).2).2
      have hrest := split_loopStart start start' hclauses
      rw [hrest] at hclauses
      obtain rfl := unique_loopStart start start' (List.append_cancel_right hclauses)
      obtain ⟨rfl, hincrement⟩ := split_optional test test' hrest rfl (by decide)
      obtain ⟨rfl, hbody⟩ := split_optional increment increment' hincrement rfl (by decide)
      cases unique_statement body body' hbody
      rfl
    | _ => exact nomatch h

end

/-- Programs of the same tokens have the same derivation. -/
theorem unique_program (d d' : Derivation .program) (h : d.tokens = d'.tokens) : d = d' := by
  cases d with
  | program body =>
    cases d' with
    | program body' => rw [unique_declarations body body' (List.append_cancel_right h)]

end Derivation

end Lox.Grammar
