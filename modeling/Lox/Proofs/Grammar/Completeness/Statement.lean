import Lox.Proofs.Grammar.Completeness.Expression

/-!
# Statements that are derived are read

Whatever the grammar derives as a statement is read, without a report, by a parser that has steps enough. Each statement
is known by its first token (`begins`), and what may follow it is anything but an `else` that would belong to it. With
this there is a parser for every derivation (`complete`).
-/

namespace Lox.Grammar

open Lox.Parser Lox.TokenStream

variable {n : Nat} {s mid rest : TokenStream} {ending : Ending}

/-! ## First tokens -/

/-- Whether a statement that declares nothing may begin with a token. -/
def beginsStatement : Token → Bool
  | .symbol .leftBrace => true
  | .keyword .ifWord => true
  | .keyword .whileWord => true
  | .keyword .forWord => true
  | .keyword .printWord => true
  | .keyword .returnWord => true
  | .keyword .breakWord => true
  | t => beginsExpression t

/-- Whether a declaration or a statement may begin with a token. -/
def beginsDeclaration : Token → Bool
  | .keyword .varWord => true
  | .keyword .funWord => true
  | .keyword .classWord => true
  | t => beginsStatement t

/-- What begins an expression begins a statement. -/
theorem beginsStatement_of_beginsExpression {t : Token} (h : beginsExpression t = true) : beginsStatement t = true := by
  unfold beginsStatement
  split <;> first | rfl | exact h

/-- What begins a statement begins a declaration. -/
theorem beginsDeclaration_of_beginsStatement {t : Token} (h : beginsStatement t = true) :
    beginsDeclaration t = true := by
  unfold beginsDeclaration
  split <;> first | rfl | exact h

/-- A statement begins with a token that may begin one. -/
theorem Derivation.begins_statement {ending : Ending} : (d : Derivation (.statement ending)) →
    ∃ t ts, d.tokens = t :: ts ∧ beginsStatement t = true
  | expressionStatement e => by
    obtain ⟨t, ts, htokens, hbegins, -⟩ := e.begins
    exact ⟨t, _, by rw [tokens, htokens]; rfl, beginsStatement_of_beginsExpression hbegins⟩
  | print e => ⟨_, _, rfl, rfl⟩
  | block body => ⟨_, _, rfl, rfl⟩
  | breakLoop => ⟨_, _, rfl, rfl⟩
  | returnValue value => ⟨_, _, rfl, rfl⟩
  | ifThen test branch => ⟨_, _, rfl, rfl⟩
  | ifElse test branch other => ⟨_, _, rfl, rfl⟩
  | whileLoop test body => ⟨_, _, rfl, rfl⟩
  | forLoop start test increment body => ⟨_, _, rfl, rfl⟩

/-- A variable declaration begins with its keyword. -/
theorem Derivation.begins_variable : (d : Derivation .variable) → ∃ ts, d.tokens = .keyword .varWord :: ts
  | uninitialized _ => ⟨_, rfl⟩
  | initialized _ _ => ⟨_, rfl⟩

/-- A declaration begins with a token that may begin one. -/
theorem Derivation.begins_declaration : (d : Derivation .declaration) →
    ∃ t ts, d.tokens = t :: ts ∧ beginsDeclaration t = true
  | variableDeclaration v => by
    obtain ⟨ts, htokens⟩ := v.begins_variable
    exact ⟨_, ts, htokens, rfl⟩
  | functionDeclaration f => ⟨_, _, rfl, rfl⟩
  | classDeclaration name none body => ⟨_, _, rfl, rfl⟩
  | classDeclaration name (some parent) body => ⟨_, _, rfl, rfl⟩
  | statement s => by
    obtain ⟨t, ts, htokens, hbegins⟩ := s.begins_statement
    exact ⟨t, ts, htokens, beginsDeclaration_of_beginsStatement hbegins⟩

/-- A function begins with its name. -/
theorem Derivation.begins_function : (d : Derivation .function) → ∃ name ts, d.tokens = .identifier name :: ts
  | function name _ _ _ => ⟨name, _, rfl⟩

/-! ## The parts of statements -/

/-- An expression is read together with the symbol behind it. -/
theorem tries_expression_symbol {e : Derivation (.expression .assignment)} (h : Complete e) {symbol : Symbol}
    {fault : Fault} {α : Type} (result : Expr → α) (hrank : Level.assignment.rank < (Token.symbol symbol).rank)
    (hspell : s.Spells (e.tokens ++ [.symbol symbol]) rest) :
    Tries (do
      let e ← expression n
      expectSymbol symbol fault
      pure (result e)) s (result e.tree) rest := by
  obtain ⟨mid, hspell', hsymbol, rfl⟩ := spells_append.1 hspell
  exact (h.reads hspell' (stops_of_starts hsymbol hrank)).bind ((tries_expectSymbol hsymbol).bind tries_pure)

/-- An expression that is missing is read, with the symbol in its place. -/
theorem complete_absent : Complete .absent := by
  rintro α result symbol fault n s rest - - ⟨hsymbol, rfl⟩
  exact .ifSymbol hsymbol tries_pure

/-- An expression that might be missing is read, with the symbol behind it. -/
theorem complete_present {e : Derivation (.expression .assignment)} (h : Complete e) : Complete (.present e) := by
  intro α result symbol fault n s rest hsymbol hrank hspell
  obtain ⟨mid, hspell', -⟩ := spells_append.1 hspell
  refine .ifNotSymbol (not_starts_expression hspell' hsymbol) ?_
  exact tries_expression_symbol h (fun e => result (some e)) hrank hspell

/-- Names behind commas are read as parameters, if there are not too many. -/
theorem tries_parametersFrom : ∀ {n count : Nat} {s : TokenStream} (others : List String),
    count + others.length ≤ mostArguments → s.Spells (namesBehind others) rest → ¬rest.Starts (.symbol .comma) →
    Tries (parametersFrom n count) s others rest
  | 0, _, _, _, _, _, _ => tries_starve
  | n + 1, count, s, [], _, hspell, hcomma => by
    obtain rfl := hspell
    rw [parametersFrom]
    exact .ifNotSymbol hcomma tries_pure
  | n + 1, count, s, name :: others, hfew, ⟨hcomma, hname, hspell⟩, hlast => by
    rw [List.length_cons] at hfew
    have hroom : decide (maxArguments ≤ count) = false := decide_eq_false fun hle => by
      have : mostArguments ≤ count := hle
      omega
    rw [parametersFrom]
    refine .ifSymbol hcomma ((tries_reportIf hroom).bind ((tries_expectIdentifier hname).bind ?_))
    exact (tries_parametersFrom others (by omega) hspell hlast).bind tries_pure

/-- Names with commas between them are read as parameters, if there are not too many. -/
theorem tries_parameters {ps : List String} (hfew : ps.length ≤ mostArguments)
    (hspell : s.Spells (names ps ++ [.symbol .rightParen]) rest) : Tries (parameters n) s ps rest := by
  cases ps with
  | nil =>
    obtain ⟨hclose, rfl⟩ := hspell
    exact .ifSymbol hclose tries_pure
  | cons first others =>
    obtain ⟨hfirst, hspell'⟩ := hspell
    obtain ⟨mid, hothers, hclose, rfl⟩ := spells_append.1 hspell'
    refine .ifNotSymbol (not_starts_of_starts hfirst nofun) ((tries_expectIdentifier hfirst).bind ?_)
    rw [List.length_cons, Nat.add_comm] at hfew
    refine (tries_parametersFrom others hfew hothers (not_starts_of_starts hclose nofun)).bind ?_
    exact (tries_expectSymbol hclose).bind tries_pure

/-- A variable without a value is read. -/
theorem complete_uninitialized (name : String) : Complete (.uninitialized name) := by
  rintro n s rest ⟨-, hname, hsemicolon, rfl⟩
  refine (tries_expectIdentifier hname).bind (.ifNotSymbol (not_starts_of_starts hsemicolon nofun) ?_)
  exact tries_pure.bind ((tries_expectSymbol hsemicolon).bind tries_pure)

/-- A variable with a value is read. -/
theorem complete_initialized {name : String} {value : Derivation (.expression .assignment)} (h : Complete value) :
    Complete (.initialized name value) := by
  rintro n s rest ⟨-, hname, hequal, hspell⟩
  obtain ⟨mid, hvalue, hsemicolon, rfl⟩ := spells_append.1 hspell
  refine (tries_expectIdentifier hname).bind (.ifSymbol hequal ?_)
  refine (h.reads hvalue (stops_of_starts hsemicolon (by decide))).bind (tries_pure.bind ?_)
  exact (tries_expectSymbol hsemicolon).bind tries_pure

/-- A loop that starts with nothing is read. -/
theorem complete_startNothing : Complete .startNothing := by
  rintro n s rest ⟨hsemicolon, rfl⟩
  exact .ifSymbol hsemicolon tries_pure

/-- A loop that starts with a variable is read. -/
theorem complete_startVariable {v : Derivation .variable} (h : Complete v) : Complete (.startVariable v) := by
  intro n s rest hspell
  obtain ⟨ts, htokens⟩ := v.begins_variable
  have hvar : s.Starts (.keyword .varWord) := by
    rw [Derivation.tokens, htokens] at hspell
    exact hspell.1
  exact .ifNotSymbol (not_starts_of_starts hvar (by simp)) (.ifKeyword hvar (Tries.bind (h n s rest hspell) tries_pure))

/-- A loop that starts with an expression is read. -/
theorem complete_startExpression {e : Derivation (.expression .assignment)} (h : Complete e) :
    Complete (.startExpression e) := by
  intro n s rest hspell
  obtain ⟨mid, hspell', -⟩ := spells_append.1 hspell
  refine .ifNotSymbol (not_starts_expression hspell' rfl) (.ifNotKeyword (not_starts_expression hspell' rfl) ?_)
  exact (tries_expression_symbol h Stmt.expression (by decide) hspell).bind tries_pure

/-! ## Statements -/

/-- Expressions are read as statements. -/
theorem complete_expressionStatement {e : Derivation (.expression .assignment)} (h : Complete e) :
    Complete (.expressionStatement e) := by
  intro n s rest hspell _
  obtain ⟨mid, hspell', -⟩ := spells_append.1 hspell
  have hnot {u : Token} (hu : beginsExpression u = false) : ¬s.Starts u := not_starts_expression hspell' hu
  cases n with
  | zero => exact tries_starve
  | succ n =>
    rw [statement]
    refine .ifNotKeyword (hnot rfl) <| .ifNotKeyword (hnot rfl) <| .ifNotKeyword (hnot rfl) <|
      .ifNotKeyword (hnot rfl) <| .ifNotKeyword (hnot rfl) <| .ifNotKeyword (hnot rfl) <| .ifNotSymbol (hnot rfl) ?_
    exact tries_expression_symbol h Stmt.expression (by decide) hspell

/-- Print statements are read. -/
theorem complete_print {e : Derivation (.expression .assignment)} (h : Complete e) : Complete (.print e) := by
  rintro n s rest ⟨hprint, hspell⟩ -
  cases n with
  | zero => exact tries_starve
  | succ n =>
    rw [statement]
    refine .ifNotKeyword (not_starts_of_starts hprint nofun) <| .ifNotKeyword (not_starts_of_starts hprint nofun) <|
      .ifNotKeyword (not_starts_of_starts hprint nofun) <| .ifKeyword hprint ?_
    exact tries_expression_symbol h Stmt.print (by decide) hspell

/-- Returns are read. -/
theorem complete_returnValue {value : Derivation .optional} (h : Complete value) : Complete (.returnValue value) := by
  rintro n s rest ⟨hreturn, hspell⟩ -
  cases n with
  | zero => exact tries_starve
  | succ n =>
    rw [statement]
    refine .ifNotKeyword (not_starts_of_starts hreturn nofun) <| .ifNotKeyword (not_starts_of_starts hreturn nofun) <|
      .ifNotKeyword (not_starts_of_starts hreturn nofun) <| .ifNotKeyword (not_starts_of_starts hreturn nofun) <|
      .ifKeyword hreturn ?_
    exact h Stmt.returnValue .semicolon .returnUnterminated n s.advance rest rfl (by decide) hspell

/-- Breaks are read. -/
theorem complete_breakLoop : Complete .breakLoop := by
  rintro n s rest ⟨hbreak, hsemicolon, rfl⟩ -
  cases n with
  | zero => exact tries_starve
  | succ n =>
    rw [statement]
    refine .ifNotKeyword (not_starts_of_starts hbreak nofun) <| .ifNotKeyword (not_starts_of_starts hbreak nofun) <|
      .ifNotKeyword (not_starts_of_starts hbreak nofun) <| .ifNotKeyword (not_starts_of_starts hbreak nofun) <|
      .ifNotKeyword (not_starts_of_starts hbreak nofun) <| .ifKeyword hbreak ?_
    exact (tries_expectSymbol hsemicolon).bind tries_pure

/-- Blocks are read. -/
theorem complete_block {body : Derivation .declarations} (h : Complete body) : Complete (.block body) := by
  rintro n s rest ⟨hopen, hspell⟩ -
  cases n with
  | zero => exact tries_starve
  | succ n =>
    rw [statement]
    refine .ifNotKeyword (not_starts_of_starts hopen nofun) <| .ifNotKeyword (not_starts_of_starts hopen nofun) <|
      .ifNotKeyword (not_starts_of_starts hopen nofun) <| .ifNotKeyword (not_starts_of_starts hopen nofun) <|
      .ifNotKeyword (not_starts_of_starts hopen nofun) <| .ifNotKeyword (not_starts_of_starts hopen nofun) <|
      .ifSymbol hopen ?_
    exact Tries.bind (h.1 n s.advance rest hspell) tries_pure

/-- An `if` without an `else` is read where none follows. -/
theorem complete_ifThen {test : Derivation (.expression .assignment)} {branch : Derivation (.statement ending)}
    (htest : Complete test) (hbranch : Complete branch) : Complete (.ifThen test branch) := by
  rintro n s rest ⟨hif, hopen, hspell⟩ hfollow
  obtain ⟨mid, hspell₁, hclose, hspell₂⟩ := spells_append.1 hspell
  -- An `if` alone is open, and so it is promised that no `else` follows it, nor its branch.
  have helse : ¬rest.Starts (.keyword .elseWord) := hfollow rfl
  cases n with
  | zero => exact tries_starve
  | succ n =>
    rw [statement]
    refine .ifKeyword hif ((tries_expectSymbol hopen).bind ?_)
    refine (htest.reads hspell₁ (stops_of_starts hclose (by decide))).bind ((tries_expectSymbol hclose).bind ?_)
    exact Tries.bind (hbranch n mid.advance rest hspell₂ fun _ => helse) (.ifNotKeyword helse tries_pure)

/-- An `if` with an `else` is read: the first branch is closed, so that it may be followed by one. -/
theorem complete_ifElse {test : Derivation (.expression .assignment)} {branch : Derivation (.statement .closed)}
    {other : Derivation (.statement ending)} (htest : Complete test) (hbranch : Complete branch)
    (hother : Complete other) : Complete (.ifElse test branch other) := by
  rintro n s rest ⟨hif, hopen, hspell⟩ hfollow
  obtain ⟨mid', hspell', helse, hspell₃⟩ := spells_append.1 hspell
  obtain ⟨mid, hspell₁, hclose, hspell₂⟩ := spells_append.1 hspell'
  cases n with
  | zero => exact tries_starve
  | succ n =>
    rw [statement]
    refine .ifKeyword hif ((tries_expectSymbol hopen).bind ?_)
    refine (htest.reads hspell₁ (stops_of_starts hclose (by decide))).bind ((tries_expectSymbol hclose).bind ?_)
    refine Tries.bind (hbranch n mid.advance mid' hspell₂ nofun) (.ifKeyword helse ?_)
    exact Tries.bind (hother n mid'.advance rest hspell₃ hfollow) tries_pure

/-- `while` loops are read. -/
theorem complete_whileLoop {test : Derivation (.expression .assignment)} {body : Derivation (.statement ending)}
    (htest : Complete test) (hbody : Complete body) : Complete (.whileLoop test body) := by
  rintro n s rest ⟨hwhile, hopen, hspell⟩ hfollow
  obtain ⟨mid, hspell₁, hclose, hspell₂⟩ := spells_append.1 hspell
  cases n with
  | zero => exact tries_starve
  | succ n =>
    rw [statement]
    refine .ifNotKeyword (not_starts_of_starts hwhile nofun) <| .ifKeyword hwhile ((tries_expectSymbol hopen).bind ?_)
    refine (htest.reads hspell₁ (stops_of_starts hclose (by decide))).bind ((tries_expectSymbol hclose).bind ?_)
    exact Tries.bind (hbody n mid.advance rest hspell₂ hfollow) tries_pure

/-- `for` loops are read, as what they mean. -/
theorem complete_forLoop {start : Derivation .loopStart} {test increment : Derivation .optional}
    {body : Derivation (.statement ending)} (hstart : Complete start) (htest : Complete test)
    (hincrement : Complete increment) (hbody : Complete body) : Complete (.forLoop start test increment body) := by
  intro n s rest hspell hfollow
  rw [Derivation.tokens_forLoop] at hspell
  obtain ⟨hfor, hopen, hspell⟩ := hspell
  obtain ⟨mid₁, hspell₁, hspell'⟩ := spells_append.1 hspell
  obtain ⟨mid₂, hspell₂, hspell''⟩ := spells_append.1 hspell'
  obtain ⟨mid₃, hspell₃, hspell₄⟩ := spells_append.1 hspell''
  cases n with
  | zero => exact tries_starve
  | succ n =>
    rw [statement]
    refine .ifNotKeyword (not_starts_of_starts hfor nofun) <| .ifNotKeyword (not_starts_of_starts hfor nofun) <|
      .ifKeyword hfor ((tries_expectSymbol hopen).bind ?_)
    refine Tries.bind (hstart n s.advance.advance mid₁ hspell₁) ?_
    refine Tries.bind (htest id .semicolon .loopConditionUnterminated n mid₁ mid₂ rfl (by decide) hspell₂) ?_
    refine Tries.bind (hincrement id .rightParen .forClausesUnclosed n mid₂ mid₃ rfl (by decide) hspell₃) ?_
    refine Tries.bind (hbody n mid₃ rest hspell₄ hfollow) ?_
    rw [forLoop_eq_forTree]
    exact tries_pure

/-! ## Declarations -/

/-- Variable declarations are read. -/
theorem complete_variableDeclaration {v : Derivation .variable} (h : Complete v) :
    Complete (.variableDeclaration v) := by
  intro n s rest hspell _
  obtain ⟨ts, htokens⟩ := v.begins_variable
  have hvar : s.Starts (.keyword .varWord) := by
    rw [Derivation.tokens, htokens] at hspell
    exact hspell.1
  cases n with
  | zero => exact tries_starve
  | succ n =>
    rw [declaration]
    exact .ifKeyword hvar (h n s rest hspell)

/-- Function declarations are read. -/
theorem complete_functionDeclaration {f : Derivation .function} (h : Complete f) :
    Complete (.functionDeclaration f) := by
  rintro n s rest ⟨hfun, hspell⟩ -
  cases n with
  | zero => exact tries_starve
  | succ n =>
    rw [declaration]
    refine .ifNotKeyword (not_starts_of_starts hfun nofun) <| .ifKeyword hfun ?_
    exact Tries.bind (h n s.advance rest hspell) tries_pure

/-- Class declarations are read. -/
theorem complete_classDeclaration {name : String} {parent : Option String} {body : Derivation .methods}
    (h : Complete body) : Complete (.classDeclaration name parent body) := by
  intro n s rest hspell _
  cases n with
  | zero => exact tries_starve
  | succ n =>
    rw [declaration]
    cases parent with
    | none =>
      obtain ⟨hclass, hname, hopen, hspell⟩ := hspell
      refine .ifNotKeyword (not_starts_of_starts hclass nofun) <| .ifNotKeyword (not_starts_of_starts hclass nofun) <|
        .ifKeyword hclass ((tries_expectIdentifier hname).bind ?_)
      refine Tries.bind (.ifNotSymbol (not_starts_of_starts hopen nofun) tries_pure) ?_
      refine (tries_expectSymbol hopen).bind ?_
      exact Tries.bind (h n _ rest hspell) tries_pure
    | some other =>
      obtain ⟨hclass, hname, hless, hother, hopen, hspell⟩ := hspell
      refine .ifNotKeyword (not_starts_of_starts hclass nofun) <| .ifNotKeyword (not_starts_of_starts hclass nofun) <|
        .ifKeyword hclass ((tries_expectIdentifier hname).bind ?_)
      refine Tries.bind (.ifSymbol hless ((tries_expectIdentifier hother).bind tries_pure)) ?_
      exact (tries_expectSymbol hopen).bind (Tries.bind (h n _ rest hspell) tries_pure)

/-- Statements are read as declarations. -/
theorem complete_statement {st : Derivation (.statement ending)} (h : Complete st) : Complete (.statement st) := by
  intro n s rest hspell helse
  obtain ⟨t, ts, htokens, hbegins⟩ := st.begins_statement
  have hstarts : s.Starts t := by
    rw [Derivation.tokens, htokens] at hspell
    exact hspell.1
  -- The three keywords that are tried before it begin no statement.
  have hnot {keyword : Keyword} (hkeyword : beginsStatement (.keyword keyword) = false) :
      ¬s.Starts (.keyword keyword) := by
    refine not_starts_of_starts hstarts ?_
    rintro rfl
    rw [hkeyword] at hbegins
    exact absurd hbegins Bool.false_ne_true
  cases n with
  | zero => exact tries_starve
  | succ n =>
    rw [declaration]
    refine .ifNotKeyword (hnot rfl) <| .ifNotKeyword (hnot rfl) <| .ifNotKeyword (hnot rfl) ?_
    exact h n s rest hspell fun _ => helse

/-- Functions are read. -/
theorem complete_function {name : String} {ps : List String} {few : ps.length ≤ mostArguments}
    {body : Derivation .declarations} (h : Complete body) : Complete (.function name ps few body) := by
  intro n s rest hspell
  rw [Derivation.tokens_function] at hspell
  obtain ⟨hname, hopen, hspell⟩ := hspell
  obtain ⟨mid, hparameters, hbrace, hbody⟩ := spells_append.1 hspell
  cases n with
  | zero => exact tries_starve
  | succ n =>
    rw [Lox.function]
    refine (tries_expectIdentifier hname).bind ((tries_expectSymbol hopen).bind ?_)
    refine (tries_parameters few hparameters).bind ((tries_expectSymbol hbrace).bind ?_)
    exact Tries.bind (h.1 n mid.advance rest hbody) tries_pure

/-- The end of a class is read. -/
theorem complete_noMethod : Complete .noMethod := by
  rintro n s rest ⟨hclose, rfl⟩
  cases n with
  | zero => exact tries_starve
  | succ n =>
    rw [Lox.methods]
    exact .ifSymbol hclose tries_pure

/-- The first method of a class is read, and the others behind it. -/
theorem complete_methods {first : Derivation .function} {others : Derivation .methods} (hfirst : Complete first)
    (hothers : Complete others) : Complete (.methods first others) := by
  intro n s rest hspell
  rw [Derivation.tokens, List.append_assoc] at hspell
  obtain ⟨mid, hspell₁, hspell₂⟩ := spells_append.1 hspell
  obtain ⟨name, ts, htokens⟩ := first.begins_function
  have hname : s.Starts (.identifier name) := by
    rw [htokens] at hspell₁
    exact hspell₁.1
  cases n with
  | zero => exact tries_starve
  | succ n =>
    rw [Lox.methods]
    refine .ifNotSymbol (not_starts_of_starts hname (by simp)) (tries_atEof.bind ?_)
    rw [hname.isAtEof_eq_false rfl]
    exact Tries.bind (hfirst n s mid hspell₁) (Tries.bind (hothers n mid rest hspell₂) tries_pure)

/-- The end of a block is read, and the end of a program. -/
theorem complete_noDeclaration : Complete .noDeclaration := by
  constructor
  · rintro n s rest ⟨hclose, rfl⟩
    cases n with
    | zero => exact tries_starve
    | succ n =>
      rw [blockRest]
      exact (tries_nextIs hclose).bind ((tries_expectSymbol hclose).bind tries_pure)
  · rintro n s rest rfl heof
    cases n with
    | zero => exact tries_starve
    | succ n =>
      rw [program]
      refine tries_atEof.bind ?_
      rw [heof]
      exact tries_pure

/-- A stream starts with what a declaration begins with. -/
theorem starts_declaration {d : Derivation .declaration} (hspell : s.Spells d.tokens rest) :
    ∃ t, s.Starts t ∧ beginsDeclaration t = true := by
  obtain ⟨t, ts, htokens, hbegins⟩ := d.begins_declaration
  rw [htokens] at hspell
  exact ⟨t, hspell.1, hbegins⟩

/-- No `else` is next where declarations are, unless one follows them. -/
theorem not_starts_else {d : Derivation .declarations} (hspell : s.Spells d.tokens rest)
    (h : ¬rest.Starts (.keyword .elseWord)) : ¬s.Starts (.keyword .elseWord) := by
  cases d with
  | noDeclaration =>
    obtain rfl := hspell
    exact h
  | declarations first others =>
    obtain ⟨mid, hspell', -⟩ := spells_append.1 hspell
    obtain ⟨t, hstarts, hbegins⟩ := starts_declaration hspell'
    refine not_starts_of_starts hstarts ?_
    rintro rfl
    exact absurd hbegins Bool.false_ne_true

/-- At its end a stream starts with no `else`. -/
theorem not_starts_of_isAtEof {t : Token} (h : rest.isAtEof = true) (ht : t.isEof = false) : ¬rest.Starts t := by
  intro hstarts
  rw [hstarts.isAtEof_eq_false ht] at h
  exact absurd h Bool.false_ne_true

/-- The first declaration of a block or a program is read, and the others behind it. -/
theorem complete_declarations {first : Derivation .declaration} {others : Derivation .declarations}
    (hfirst : Complete first) (hothers : Complete others) : Complete (.declarations first others) := by
  constructor
  · intro n s rest hspell
    rw [Derivation.tokens, List.append_assoc] at hspell
    obtain ⟨mid, hspell₁, hspell₂⟩ := spells_append.1 hspell
    obtain ⟨mid', hspell₃, hclose, -⟩ := spells_append.1 hspell₂
    obtain ⟨t, hstarts, hbegins⟩ := starts_declaration hspell₁
    -- The block goes on: neither its brace nor the end mark begins a declaration.
    have hgoes : (t.isEof || t.isSymbol .rightBrace) = false := by
      cases t with
      | symbol symbol => cases symbol <;> first | rfl | exact absurd hbegins Bool.false_ne_true
      | eof => exact absurd hbegins Bool.false_ne_true
      | _ => rfl
    -- What follows the first declaration is another one or the brace, and neither begins with `else`.
    have helse := not_starts_else hspell₃ (not_starts_of_starts hclose (by simp))
    cases n with
    | zero => exact tries_starve
    | succ n =>
      rw [blockRest]
      refine (tries_nextIs hstarts).bind ?_
      rw [hgoes]
      exact Tries.bind (hfirst n s mid hspell₁ helse) (Tries.bind (hothers.1 n mid rest hspell₂) tries_pure)
  · intro n s rest hspell heof
    obtain ⟨mid, hspell₁, hspell₂⟩ := spells_append.1 hspell
    obtain ⟨t, hstarts, hbegins⟩ := starts_declaration hspell₁
    have hgoes : t.isEof = false := by
      cases t with
      | eof => exact absurd hbegins Bool.false_ne_true
      | _ => rfl
    have helse := not_starts_else hspell₂ (not_starts_of_isAtEof heof rfl)
    cases n with
    | zero => exact tries_starve
    | succ n =>
      rw [program]
      refine tries_atEof.bind ?_
      rw [hstarts.isAtEof_eq_false hgoes]
      refine Tries.bind (Tries.attempt (hfirst n s mid hspell₁ helse)) ?_
      exact Tries.bind (hothers.2 n mid rest hspell₂ heof) tries_pure

/-- Programs are read. -/
theorem complete_program {body : Derivation .declarations} (h : Complete body) : Complete (.program body) := by
  intro n s rest hspell heof
  rw [Derivation.tokens, List.dropLast_concat] at hspell
  exact h.2 n s rest hspell heof

/-! ## All derivations -/

/-- Whatever is derived is read. -/
theorem complete : {nt : Nonterminal} → (d : Derivation nt) → Complete d
  | _, .program body => complete_program (complete body)
  | _, .noDeclaration => complete_noDeclaration
  | _, .declarations first others => complete_declarations (complete first) (complete others)
  | _, .variableDeclaration v => complete_variableDeclaration (complete v)
  | _, .functionDeclaration f => complete_functionDeclaration (complete f)
  | _, .classDeclaration _ _ body => complete_classDeclaration (complete body)
  | _, .statement st => complete_statement (complete st)
  | _, .uninitialized name => complete_uninitialized name
  | _, .initialized _ value => complete_initialized (complete value)
  | _, .function _ _ _ body => complete_function (complete body)
  | _, .noMethod => complete_noMethod
  | _, .methods first others => complete_methods (complete first) (complete others)
  | _, .expressionStatement e => complete_expressionStatement (complete e)
  | _, .print e => complete_print (complete e)
  | _, .block body => complete_block (complete body)
  | _, .breakLoop => complete_breakLoop
  | _, .returnValue value => complete_returnValue (complete value)
  | _, .ifThen test branch => complete_ifThen (complete test) (complete branch)
  | _, .ifElse test branch other => complete_ifElse (complete test) (complete branch) (complete other)
  | _, .whileLoop test body => complete_whileLoop (complete test) (complete body)
  | _, .forLoop start test increment body =>
    complete_forLoop (complete start) (complete test) (complete increment) (complete body)
  | _, .startNothing => complete_startNothing
  | _, .startVariable v => complete_startVariable (complete v)
  | _, .startExpression e => complete_startExpression (complete e)
  | _, .absent => complete_absent
  | _, .present e => complete_present (complete e)
  | _, .assignVariable name value => complete_assignVariable (complete value) (complete_uncalled (complete_named name))
  | _, .assignProperty object _ value => complete_assignProperty (complete object) (complete value)
  | _, .assignElement object position value =>
    complete_assignElement (complete object) (complete position) (complete value)
  | _, .unassigned e => complete_unassigned (complete e)
  | _, .operation _ _ left right => complete_operation (complete left) (complete right)
  | _, .operand e => complete_operand (complete e)
  | _, .choice test ifTrue ifFalse => complete_choice (complete test) (complete ifTrue) (complete ifFalse)
  | _, .unconditional e => complete_unconditional (complete e)
  | _, .signed _ e => complete_signed (complete e)
  | _, .unsigned e => complete_unsigned (complete e)
  | _, .call callee arguments _ => complete_call (complete callee) (complete arguments)
  | _, .property object _ => complete_property (complete object)
  | _, .element object position => complete_element (complete object) (complete position)
  | _, .uncalled e => complete_uncalled (complete e)
  | _, .atom a => complete_atom a
  | _, .named name => complete_named name
  | _, .superMethod method => complete_superMethod method
  | _, .group e => complete_group (complete e)
  | _, .list items => complete_list (complete items)
  | _, .lastExpression e => complete_lastExpression (complete e)
  | _, .moreExpressions e others => complete_moreExpressions (complete e) (complete others)
  | _, .noExpression => complete_noExpression
  | _, .someExpressions es => complete_someExpressions (complete es)

end Lox.Grammar
