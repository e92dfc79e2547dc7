import Lox.Proofs.Grammar.Soundness.Expression

/-!
# Statements that are read are derived

Whatever a parser of statements reads without a report, the grammar derives. As for expressions, the proof is by
induction on the steps given, over all these parsers at once (`SoundStatements`). An `else` is never left behind a
statement that it would belong to, so that what stands before an `else` is closed.
-/

namespace Lox.Grammar

open Lox.Parser Lox.TokenStream

variable {n : Nat} {s mid rest : TokenStream}

/-! ## The parts of statements -/

/-- Whatever is read as a whole expression is derived. -/
theorem derived_expression {e : Expr} (hread : Reads (Lox.expression n) s e rest) :
    ∃ d : Derivation (.expression .assignment), d.tree = e ∧ s.Spells d.tokens rest :=
  (soundExpressions n).expressionAt hread

/-- An expression that is read together with the symbol behind it is derived. -/
theorem derived_expression_symbol {symbol : Symbol} {fault : Fault} {α : Type} {a : α} (result : Expr → α)
    (hread : Reads (do
      let e ← Lox.expression n
      expectSymbol symbol fault
      pure (result e)) s a rest) :
    ∃ d : Derivation (.expression .assignment), result d.tree = a ∧ s.Spells (d.tokens ++ [.symbol symbol]) rest := by
  obtain ⟨e, mid, he, hlast⟩ := reads_bind.1 hread
  obtain ⟨u, mid', hexpect, hend⟩ := reads_bind.1 hlast
  obtain ⟨d, rfl, hd⟩ := derived_expression he
  obtain ⟨hstarts, rfl⟩ := reads_expectSymbol.1 hexpect
  obtain ⟨rfl, rfl⟩ := reads_pure.1 hend
  exact ⟨d, rfl, spells_append.2 ⟨mid, hd, hstarts, rfl⟩⟩

/-- An expression that may be missing is derived if it is read together with the symbol behind it. -/
theorem derived_optional {symbol : Symbol} {fault : Fault} {α : Type} {a : α} (result : Option Expr → α)
    (hread : Reads (do
      if ← takeSymbol symbol then pure (result none)
      else
        let e ← Lox.expression n
        expectSymbol symbol fault
        pure (result (some e))) s a rest) :
    ∃ d : Derivation .optional, result d.tree = a ∧ s.Spells (d.tokens ++ [.symbol symbol]) rest := by
  rcases reads_ifSymbol.1 hread with ⟨hstarts, hend⟩ | ⟨-, hsome⟩
  · obtain ⟨rfl, rfl⟩ := reads_pure.1 hend
    exact ⟨.absent, rfl, hstarts, rfl⟩
  · obtain ⟨d, rfl, hd⟩ := derived_expression_symbol (fun e => result (some e)) hsome
    exact ⟨.present d, rfl, hd⟩

/-- Parameters that are read behind others are names behind commas, and there are not too many. -/
theorem names_of_parametersFrom : ∀ {n count : Nat} {s : TokenStream} {others : List String} {rest : TokenStream},
    Reads (parametersFrom n count) s others rest → count ≤ mostArguments →
    count + others.length ≤ mostArguments ∧ s.Spells (namesBehind others) rest
  | 0, _, _, _, _, hread, _ => absurd hread not_reads_starve
  | n + 1, count, s, others, rest, hread, hcount => by
    rw [parametersFrom] at hread
    rcases reads_ifSymbol.1 hread with ⟨hcomma, hmore⟩ | ⟨-, hend⟩
    · obtain ⟨u, mid, hreport, hname⟩ := reads_bind.1 hmore
      obtain ⟨hroom, rfl⟩ := reads_reportIf.1 hreport
      obtain ⟨name, mid', hidentifier, hothers⟩ := reads_bind.1 hname
      obtain ⟨hstarts, rfl⟩ := reads_expectIdentifier.1 hidentifier
      obtain ⟨others', mid'', hfrom, hend⟩ := reads_bind.1 hothers
      obtain ⟨rfl, rfl⟩ := reads_pure.1 hend
      -- One too many would have been reported.
      have hless : count < mostArguments := Nat.not_le.1 (decide_eq_false_iff_not.1 hroom)
      obtain ⟨hfew, hspell⟩ := names_of_parametersFrom hfrom hless
      exact ⟨by rw [List.length_cons]; omega, hcomma, hstarts, hspell⟩
    · obtain ⟨rfl, rfl⟩ := reads_pure.1 hend
      exact ⟨hcount, rfl⟩

/-- Parameters that are read are names with commas between them, and there are not too many. -/
theorem names_of_parameters {ps : List String} (hread : Reads (parameters n) s ps rest) :
    ps.length ≤ mostArguments ∧ s.Spells (names ps ++ [.symbol .rightParen]) rest := by
  rcases reads_ifSymbol.1 hread with ⟨hclose, hend⟩ | ⟨-, hsome⟩
  · obtain ⟨rfl, rfl⟩ := reads_pure.1 hend
    exact ⟨Nat.zero_le _, hclose, rfl⟩
  · obtain ⟨first, mid, hidentifier, hothers⟩ := reads_bind.1 hsome
    obtain ⟨hstarts, rfl⟩ := reads_expectIdentifier.1 hidentifier
    obtain ⟨others, mid', hfrom, hlast⟩ := reads_bind.1 hothers
    obtain ⟨u, mid'', hexpect, hend⟩ := reads_bind.1 hlast
    obtain ⟨hclose, rfl⟩ := reads_expectSymbol.1 hexpect
    obtain ⟨rfl, rfl⟩ := reads_pure.1 hend
    obtain ⟨hfew, hspell⟩ := names_of_parametersFrom hfrom (by decide)
    exact ⟨by rw [List.length_cons]; omega, hstarts, spells_append.2 ⟨mid', hspell, hclose, rfl⟩⟩

/-- A variable declaration that is read behind its keyword is derived. -/
theorem derived_variable {st : Stmt} (hread : Reads (variableDeclaration n) s st rest) :
    ∃ (d : Derivation .variable) (ts : List Token), d.tree = st ∧ d.tokens = .keyword .varWord :: ts ∧
      s.Spells ts rest := by
  obtain ⟨name, mid, hidentifier, hafter⟩ := reads_bind.1 hread
  obtain ⟨hname, rfl⟩ := reads_expectIdentifier.1 hidentifier
  rcases reads_ifSymbol.1 hafter with ⟨hequal, hsome⟩ | ⟨-, hnone⟩
  · obtain ⟨value, mid, hvalue, hjoin⟩ := reads_bind.1 hsome
    obtain ⟨init, mid', hinit, hlast⟩ := reads_bind.1 hjoin
    obtain ⟨rfl, rfl⟩ := reads_pure.1 hinit
    obtain ⟨u, mid'', hexpect, hend⟩ := reads_bind.1 hlast
    obtain ⟨hsemicolon, rfl⟩ := reads_expectSymbol.1 hexpect
    obtain ⟨d, rfl, hd⟩ := derived_expression hvalue
    obtain ⟨rfl, rfl⟩ := reads_pure.1 hend
    exact ⟨.initialized name d, _, rfl, rfl, hname, hequal, spells_append.2 ⟨_, hd, hsemicolon, rfl⟩⟩
  · obtain ⟨init, mid, hinit, hlast⟩ := reads_bind.1 hnone
    obtain ⟨rfl, rfl⟩ := reads_pure.1 hinit
    obtain ⟨u, mid', hexpect, hend⟩ := reads_bind.1 hlast
    obtain ⟨hsemicolon, rfl⟩ := reads_expectSymbol.1 hexpect
    obtain ⟨rfl, rfl⟩ := reads_pure.1 hend
    exact ⟨.uninitialized name, _, rfl, rfl, hname, hsemicolon, rfl⟩

/-- What is read that starts a `for` loop is derived. -/
theorem derived_loopStart {start : Option Stmt} (hread : Reads (forInit n) s start rest) :
    ∃ d : Derivation .loopStart, d.tree = start ∧ s.Spells d.tokens rest := by
  rcases reads_ifSymbol.1 hread with ⟨hsemicolon, hend⟩ | ⟨-, hsome⟩
  · obtain ⟨rfl, rfl⟩ := reads_pure.1 hend
    exact ⟨.startNothing, rfl, hsemicolon, rfl⟩
  · rcases reads_ifKeyword.1 hsome with ⟨hvar, hvariable⟩ | ⟨-, hexpression⟩
    · obtain ⟨st, mid, hst, hend⟩ := reads_bind.1 hvariable
      obtain ⟨d, ts, rfl, htokens, hts⟩ := derived_variable hst
      obtain ⟨rfl, rfl⟩ := reads_pure.1 hend
      refine ⟨.startVariable d, rfl, ?_⟩
      rw [Derivation.tokens, htokens]
      exact ⟨hvar, hts⟩
    · obtain ⟨st, mid, hst, hend⟩ := reads_bind.1 hexpression
      obtain ⟨d, rfl, hd⟩ := derived_expression_symbol Stmt.expression hst
      obtain ⟨rfl, rfl⟩ := reads_pure.1 hend
      exact ⟨.startExpression d, rfl, hd⟩

/-! ## Statements -/

/-- What the parsers of statements read in so many steps is derived. An `else` is left behind a statement only where it
would not belong to it. -/
structure SoundStatements (n : Nat) : Prop where
  declaration : ∀ {s st rest}, Reads (declaration n) s st rest →
    ∃ d : Derivation .declaration, d.tree = st ∧ s.Spells d.tokens rest
  statement : ∀ {s st rest}, Reads (statement n) s st rest →
    ∃ (ending : Ending) (d : Derivation (.statement ending)), d.tree = st ∧ s.Spells d.tokens rest ∧
      (ending = .opened → ¬rest.Starts (.keyword .elseWord))
  blockRest : ∀ {s body rest}, Reads (blockRest n) s body rest →
    ∃ d : Derivation .declarations, d.tree = body ∧ s.Spells (d.tokens ++ [.symbol .rightBrace]) rest
  function : ∀ {s f rest}, Reads (function n) s f rest →
    ∃ d : Derivation .function, d.tree = f ∧ s.Spells d.tokens rest
  methods : ∀ {s fs rest}, Reads (methods n) s fs rest →
    ∃ d : Derivation .methods, d.tree = fs ∧ s.Spells (d.tokens ++ [.symbol .rightBrace]) rest

/-- A declaration that is read is derived. -/
theorem SoundStatements.declares (h : SoundStatements n) {st : Stmt}
    (hread : Reads (Lox.declaration (n + 1)) s st rest) :
    ∃ d : Derivation .declaration, d.tree = st ∧ s.Spells d.tokens rest := by
  rw [Lox.declaration] at hread
  -- The keywords are tried one after another, and then a statement is read.
  rcases reads_ifKeyword.1 hread with ⟨hvar, hvariable⟩ | ⟨-, hread₁⟩
  · -- `var`
    obtain ⟨d, ts, rfl, htokens, hts⟩ := derived_variable hvariable
    refine ⟨.variableDeclaration d, rfl, ?_⟩
    rw [Derivation.tokens, htokens]
    exact ⟨hvar, hts⟩
  rcases reads_ifKeyword.1 hread₁ with ⟨hfun, hfunction⟩ | ⟨-, hread₂⟩
  · -- `fun`
    obtain ⟨f, mid, hf, hend⟩ := reads_bind.1 hfunction
    obtain ⟨d, rfl, hd⟩ := h.function hf
    obtain ⟨rfl, rfl⟩ := reads_pure.1 hend
    exact ⟨.functionDeclaration d, rfl, hfun, hd⟩
  rcases reads_ifKeyword.1 hread₂ with ⟨hclass, hclassRest⟩ | ⟨-, hread₃⟩
  · -- `class`, with a parent or without
    obtain ⟨name, mid, hidentifier, hparentRest⟩ := reads_bind.1 hclassRest
    obtain ⟨hname, rfl⟩ := reads_expectIdentifier.1 hidentifier
    obtain ⟨parent, mid', hparent, hbrace⟩ := reads_bind.1 hparentRest
    obtain ⟨u, mid'', hexpect, hbody⟩ := reads_bind.1 hbrace
    obtain ⟨hopen, rfl⟩ := reads_expectSymbol.1 hexpect
    obtain ⟨fs, mid₃, hmethods, hend⟩ := reads_bind.1 hbody
    obtain ⟨d, rfl, hd⟩ := h.methods hmethods
    obtain ⟨rfl, rfl⟩ := reads_pure.1 hend
    rcases reads_ifSymbol.1 hparent with ⟨hless, hsome⟩ | ⟨-, hnone⟩
    · obtain ⟨other, mid₄, hidentifier', hresult⟩ := reads_bind.1 hsome
      obtain ⟨hother, rfl⟩ := reads_expectIdentifier.1 hidentifier'
      obtain ⟨rfl, rfl⟩ := reads_pure.1 hresult
      exact ⟨.classDeclaration name (some other) d, rfl, hclass, hname, hless, hother, hopen, hd⟩
    · obtain ⟨rfl, rfl⟩ := reads_pure.1 hnone
      exact ⟨.classDeclaration name none d, rfl, hclass, hname, hopen, hd⟩
  · obtain ⟨ending, d, rfl, hd, -⟩ := h.statement hread₃
    exact ⟨.statement d, rfl, hd⟩

/-- An `if` that is read behind its keyword is derived, with the `else` that is next. -/
theorem SoundStatements.conditional (h : SoundStatements n) {st : Stmt} (hif : s.Starts (.keyword .ifWord))
    (hread : Reads (do
      expectSymbol .leftParen .ifUnparenthesized
      let test ← expression n
      expectSymbol .rightParen .ifConditionUnclosed
      let thenBranch ← Lox.statement n
      if ← takeKeyword .elseWord then
        let elseBranch ← Lox.statement n
        pure (.conditional test thenBranch (some elseBranch))
      else pure (.conditional test thenBranch none)) s.advance st rest) :
    ∃ (ending : Ending) (d : Derivation (.statement ending)), d.tree = st ∧ s.Spells d.tokens rest ∧
      (ending = .opened → ¬rest.Starts (.keyword .elseWord)) := by
  obtain ⟨u, mid, hexpect, htest⟩ := reads_bind.1 hread
  obtain ⟨hopen, rfl⟩ := reads_expectSymbol.1 hexpect
  obtain ⟨e, mid', he, hparen⟩ := reads_bind.1 htest
  obtain ⟨test, rfl, hspell⟩ := derived_expression he
  obtain ⟨u', mid'', hexpect', hbranch⟩ := reads_bind.1 hparen
  obtain ⟨hclose, rfl⟩ := reads_expectSymbol.1 hexpect'
  obtain ⟨st', mid₃, hst', hothers⟩ := reads_bind.1 hbranch
  obtain ⟨ending, branch, rfl, hbranch', hending⟩ := h.statement hst'
  rcases reads_ifKeyword.1 hothers with ⟨helse, hother⟩ | ⟨hno, hend⟩
  · obtain ⟨st'', mid₄, hst'', hend⟩ := reads_bind.1 hother
    obtain ⟨ending', other, rfl, hother', hending'⟩ := h.statement hst''
    obtain ⟨rfl, rfl⟩ := reads_pure.1 hend
    -- The branch is closed, since an `else` follows it.
    cases ending with
    | opened => exact absurd helse (hending rfl)
    | closed =>
      refine ⟨ending', .ifElse test branch other, rfl, ?_, hending'⟩
      exact ⟨hif, hopen, spells_append.2
        ⟨_, spells_append.2 ⟨_, hspell, hclose, hbranch'⟩, helse, hother'⟩⟩
  · -- No `else` follows, since it would have been taken.
    obtain ⟨rfl, rfl⟩ := reads_pure.1 hend
    refine ⟨.opened, .ifThen test branch, rfl, ?_, fun _ => hno⟩
    exact ⟨hif, hopen, spells_append.2 ⟨_, hspell, hclose, hbranch'⟩⟩

/-- A `for` loop that is read behind its keyword is derived. -/
theorem SoundStatements.counted (h : SoundStatements n) {st : Stmt} (hfor : s.Starts (.keyword .forWord))
    (hread : Reads (do
      expectSymbol .leftParen .forUnparenthesized
      let init ← forInit n
      let test ← forTest n
      let increment ← forIncrement n
      let body ← Lox.statement n
      pure (Stmt.forLoop init test increment body)) s.advance st rest) :
    ∃ (ending : Ending) (d : Derivation (.statement ending)), d.tree = st ∧ s.Spells d.tokens rest ∧
      (ending = .opened → ¬rest.Starts (.keyword .elseWord)) := by
  obtain ⟨u, mid, hexpect, hstart⟩ := reads_bind.1 hread
  obtain ⟨hopen, rfl⟩ := reads_expectSymbol.1 hexpect
  obtain ⟨o, mid₁, hinit, htest⟩ := reads_bind.1 hstart
  obtain ⟨start, rfl, hstart'⟩ := derived_loopStart hinit
  obtain ⟨o₁, mid₂, htest', hincrement⟩ := reads_bind.1 htest
  obtain ⟨test, rfl, htest''⟩ := derived_optional id htest'
  obtain ⟨o₂, mid₃, hincrement', hbody⟩ := reads_bind.1 hincrement
  obtain ⟨increment, rfl, hincrement''⟩ := derived_optional id hincrement'
  obtain ⟨st', mid₄, hst', hend⟩ := reads_bind.1 hbody
  obtain ⟨ending, body, rfl, hbody', hending⟩ := h.statement hst'
  obtain ⟨rfl, rfl⟩ := reads_pure.1 hend
  refine ⟨ending, .forLoop start test increment body, (forLoop_eq_forTree _ _ _ _).symm, ?_, hending⟩
  rw [Derivation.tokens_forLoop]
  exact ⟨hfor, hopen, spells_append.2 ⟨mid₁, hstart', spells_append.2 ⟨mid₂, htest'', spells_append.2
    ⟨mid₃, hincrement'', hbody'⟩⟩⟩⟩

/-- A statement that is read is derived. -/
theorem SoundStatements.states (h : SoundStatements n) {st : Stmt}
    (hread : Reads (Lox.statement (n + 1)) s st rest) :
    ∃ (ending : Ending) (d : Derivation (.statement ending)), d.tree = st ∧ s.Spells d.tokens rest ∧
      (ending = .opened → ¬rest.Starts (.keyword .elseWord)) := by
  rw [Lox.statement] at hread
  -- The keywords are tried one after another; what begins with none of them is a block or an expression.
  rcases reads_ifKeyword.1 hread with ⟨hif, hconditional⟩ | ⟨-, hread₁⟩
  · exact h.conditional hif hconditional
  rcases reads_ifKeyword.1 hread₁ with ⟨hwhile, hloop⟩ | ⟨-, hread₂⟩
  · -- `while`
    obtain ⟨u, mid, hexpect, htest⟩ := reads_bind.1 hloop
    obtain ⟨hopen, rfl⟩ := reads_expectSymbol.1 hexpect
    obtain ⟨e, mid', he, hparen⟩ := reads_bind.1 htest
    obtain ⟨test, rfl, hspell⟩ := derived_expression he
    obtain ⟨u', mid'', hexpect', hbody⟩ := reads_bind.1 hparen
    obtain ⟨hclose, rfl⟩ := reads_expectSymbol.1 hexpect'
    obtain ⟨st', mid₃, hst', hend⟩ := reads_bind.1 hbody
    obtain ⟨ending, body, rfl, hbody', hending⟩ := h.statement hst'
    obtain ⟨rfl, rfl⟩ := reads_pure.1 hend
    exact ⟨ending, .whileLoop test body, rfl,
      ⟨hwhile, hopen, spells_append.2 ⟨_, hspell, hclose, hbody'⟩⟩, hending⟩
  rcases reads_ifKeyword.1 hread₂ with ⟨hfor, hloop⟩ | ⟨-, hread₃⟩
  · exact h.counted hfor hloop
  rcases reads_ifKeyword.1 hread₃ with ⟨hprint, hvalue⟩ | ⟨-, hread₄⟩
  · obtain ⟨d, rfl, hd⟩ := derived_expression_symbol Stmt.print hvalue
    exact ⟨.closed, .print d, rfl, ⟨hprint, hd⟩, nofun⟩
  rcases reads_ifKeyword.1 hread₄ with ⟨hreturn, hvalue⟩ | ⟨-, hread₅⟩
  · obtain ⟨d, rfl, hd⟩ := derived_optional Stmt.returnValue hvalue
    exact ⟨.closed, .returnValue d, rfl, ⟨hreturn, hd⟩, nofun⟩
  rcases reads_ifKeyword.1 hread₅ with ⟨hbreak, hlast⟩ | ⟨-, hread₆⟩
  · obtain ⟨u, mid, hexpect, hend⟩ := reads_bind.1 hlast
    obtain ⟨hsemicolon, rfl⟩ := reads_expectSymbol.1 hexpect
    obtain ⟨rfl, rfl⟩ := reads_pure.1 hend
    exact ⟨.closed, .breakLoop, rfl, ⟨hbreak, hsemicolon, rfl⟩, nofun⟩
  rcases reads_ifSymbol.1 hread₆ with ⟨hopen, hblock⟩ | ⟨-, hread₇⟩
  · obtain ⟨body, mid, hbody, hend⟩ := reads_bind.1 hblock
    obtain ⟨d, rfl, hd⟩ := h.blockRest hbody
    obtain ⟨rfl, rfl⟩ := reads_pure.1 hend
    exact ⟨.closed, .block d, rfl, ⟨hopen, hd⟩, nofun⟩
  · obtain ⟨d, rfl, hd⟩ := derived_expression_symbol Stmt.expression hread₇
    exact ⟨.closed, .expressionStatement d, rfl, hd, nofun⟩

/-- The rest of a block that is read is derived, with the brace that ends it. -/
theorem SoundStatements.block (h : SoundStatements n) {body : List Stmt}
    (hread : Reads (Lox.blockRest (n + 1)) s body rest) :
    ∃ d : Derivation .declarations, d.tree = body ∧ s.Spells (d.tokens ++ [.symbol .rightBrace]) rest := by
  rw [Lox.blockRest] at hread
  obtain ⟨stop, mid, hstop, hafter⟩ := reads_bind.1 hread
  obtain ⟨-, rfl⟩ := reads_nextIs.1 hstop
  cases stop with
  | true =>
    obtain ⟨u, mid', hexpect, hend⟩ := reads_bind.1 hafter
    obtain ⟨hclose, rfl⟩ := reads_expectSymbol.1 hexpect
    obtain ⟨rfl, rfl⟩ := reads_pure.1 hend
    exact ⟨.noDeclaration, rfl, hclose, rfl⟩
  | false =>
    obtain ⟨first, mid', hfirst, hothers⟩ := reads_bind.1 hafter
    obtain ⟨d, rfl, hd⟩ := h.declaration hfirst
    obtain ⟨others, mid'', hothers', hend⟩ := reads_bind.1 hothers
    obtain ⟨ds, rfl, hds⟩ := h.blockRest hothers'
    obtain ⟨rfl, rfl⟩ := reads_pure.1 hend
    refine ⟨.declarations d ds, rfl, ?_⟩
    rw [Derivation.tokens, List.append_assoc]
    exact spells_append.2 ⟨mid', hd, hds⟩

/-- A function that is read is derived. -/
theorem SoundStatements.defines (h : SoundStatements n) {f : FunDecl}
    (hread : Reads (Lox.function (n + 1)) s f rest) :
    ∃ d : Derivation .function, d.tree = f ∧ s.Spells d.tokens rest := by
  rw [Lox.function] at hread
  obtain ⟨name, mid, hidentifier, hparen⟩ := reads_bind.1 hread
  obtain ⟨hname, rfl⟩ := reads_expectIdentifier.1 hidentifier
  obtain ⟨u, mid', hexpect, hparameters⟩ := reads_bind.1 hparen
  obtain ⟨hopen, rfl⟩ := reads_expectSymbol.1 hexpect
  obtain ⟨ps, mid'', hps, hbrace⟩ := reads_bind.1 hparameters
  obtain ⟨hfew, hspell⟩ := names_of_parameters hps
  obtain ⟨u', mid₃, hexpect', hbody⟩ := reads_bind.1 hbrace
  obtain ⟨hbrace', rfl⟩ := reads_expectSymbol.1 hexpect'
  obtain ⟨body, mid₄, hbody', hend⟩ := reads_bind.1 hbody
  obtain ⟨d, rfl, hd⟩ := h.blockRest hbody'
  obtain ⟨rfl, rfl⟩ := reads_pure.1 hend
  refine ⟨.function name ps hfew d, rfl, ?_⟩
  rw [Derivation.tokens_function]
  exact ⟨hname, hopen, spells_append.2 ⟨mid'', hspell, hbrace', hd⟩⟩

/-- The methods of a class that are read are derived, with the brace that ends them. -/
theorem SoundStatements.members (h : SoundStatements n) {fs : List FunDecl}
    (hread : Reads (Lox.methods (n + 1)) s fs rest) :
    ∃ d : Derivation .methods, d.tree = fs ∧ s.Spells (d.tokens ++ [.symbol .rightBrace]) rest := by
  rw [Lox.methods] at hread
  rcases reads_ifSymbol.1 hread with ⟨hclose, hend⟩ | ⟨-, hmore⟩
  · obtain ⟨rfl, rfl⟩ := reads_pure.1 hend
    exact ⟨.noMethod, rfl, hclose, rfl⟩
  · obtain ⟨ended, mid, hended, hafter⟩ := reads_bind.1 hmore
    obtain ⟨-, rfl⟩ := reads_atEof.1 hended
    cases ended with
    | true =>
      -- At the end of the stream the brace is missing, which is reported.
      obtain ⟨u, mid', hreport, -⟩ := reads_bind.1 hafter
      exact absurd (reads_reportIf.1 hreport).1 (by decide)
    | false =>
      obtain ⟨first, mid', hfirst, hothers⟩ := reads_bind.1 hafter
      obtain ⟨d, rfl, hd⟩ := h.function hfirst
      obtain ⟨others, mid'', hothers', hend⟩ := reads_bind.1 hothers
      obtain ⟨ds, rfl, hds⟩ := h.methods hothers'
      obtain ⟨rfl, rfl⟩ := reads_pure.1 hend
      refine ⟨.methods d ds, rfl, ?_⟩
      rw [Derivation.tokens, List.append_assoc]
      exact spells_append.2 ⟨mid', hd, hds⟩

/-- Whatever is read as a statement, a function or a block is derived. -/
theorem soundStatements : ∀ n, SoundStatements n
  | 0 => by
    constructor <;> intros <;> rename_i h <;> exact absurd h not_reads_starve
  | n + 1 =>
    have h := soundStatements n
    ⟨h.declares, h.states, h.block, h.defines, h.members⟩

end Lox.Grammar
