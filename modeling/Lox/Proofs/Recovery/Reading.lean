import Lox.Proofs.Recovery.Likeness

/-!
# Streams that are alike are read alike

Every parser of expressions and statements gives results that agree from streams that are alike (`alikeExpressions`,
`alikeStatements`), if the second is given as many steps as the first or more. An expression leaves streams that are
alike; a statement leaves streams behind a statement.
-/

namespace Lox.Likeness

open Lox.TokenStream Lox.Parser

variable {L : Likeness} {n m : Nat} {s s' : TokenStream}

/-! ## Expressions -/

/-- No expression starts with a semicolon. -/
theorem balks_expressionAt (h : s.peek.content = .ok .semicolon) : ∀ n level, Balks (expressionAt n level) s
  | 0, _ => .inl rfl
  | n + 1, .assignment => by
    rw [expressionAt]
    exact (balks_expressionAt h n _).bind
  | n + 1, .between level => by
    rw [expressionAt]
    exact (balks_expressionAt h n _).bind
  | n + 1, .ternary => by
    rw [expressionAt]
    exact (balks_expressionAt h n _).bind
  | n + 1, .call => by
    rw [expressionAt]
    exact (balks_expressionAt h n _).bind
  | n + 1, .unary => by
    have hsign : ∀ t, s.Starts t → t.unaryOp? = none := by
      intro t ht
      obtain rfl : t = .semicolon := Except.ok.inj ((content_peek_of_starts ht).symm.trans h)
      rfl
    unfold Balks
    rw [expressionAt, bind_of_reads (takeSome_of_not_starts rfl hsign)]
    exact balks_expressionAt h n .call
  | n + 1, .primary => by
    refine .inr ⟨.expressionExpected, ?_⟩
    rw [expressionAt, bind_of_reads (reads_next.2 ⟨rfl, rfl⟩), h]
    rfl

/-- The parsers of expressions agree. -/
structure AlikeExpressions (L : Likeness) (n m : Nat) : Prop where
  expressionAt : ∀ level {s s'}, L.Before s s' → L.Agree L.Before (expressionAt n level s) (expressionAt m level s')
  operationsAfter : ∀ level left {s s'}, L.Before s s' →
    L.Agree L.Before (operationsAfter n level left s) (operationsAfter m level left s')
  accessesAfter : ∀ object {s s'}, L.Before s s' →
    L.Agree L.Before (accessesAfter n object s) (accessesAfter m object s')
  expressions : ∀ listing {s s'}, L.Before s s' →
    L.Agree L.Before (expressions n listing s) (expressions m listing s')
  expressionsFrom : ∀ listing before {s s'}, L.Before s s' →
    L.Agree L.Before (expressionsFrom n listing before s) (expressionsFrom m listing before s')

/-- Assignments agree. -/
theorem AlikeExpressions.assignment (h : L.AlikeExpressions n m) (hs : L.Before s s') :
    L.Agree L.Before (Lox.expressionAt (n + 1) .assignment s) (Lox.expressionAt (m + 1) .assignment s') := by
  rw [Lox.expressionAt, Lox.expressionAt]
  refine agree_bind (h.expressionAt (.between .or) hs) fun target mid mid' hmid => ?_
  refine agree_bind_takeSymbol? hmid (by decide) (fun hequal hvalue => ?_) (agree_pure hmid)
  refine agree_bind (h.expressionAt .assignment hvalue) fun value mid₁ mid₁' hmid₁ => ?_
  cases target.assignment? value with
  | some e => exact agree_pure hmid₁
  | none =>
    have hclear : ¬L.last mid.peek.position := by
      refine (L.advance hmid ?_).2
      rw [content_peek_of_starts hequal]
      exact mt (fun h => Token.symbol.inj (Except.ok.inj h)) (by decide)
    exact agree_bind (agree_report hmid₁ hclear) fun _ _ _ hmid₂ => agree_pure hmid₂

/-- What is read between operators agrees. -/
theorem AlikeExpressions.between (h : L.AlikeExpressions n m) {level : InfixLevel} (hs : L.Before s s') :
    L.Agree L.Before (Lox.expressionAt (n + 1) (.between level) s)
      (Lox.expressionAt (m + 1) (.between level) s') := by
  rw [Lox.expressionAt, Lox.expressionAt]
  exact agree_bind (h.expressionAt _ hs) fun first mid mid' hmid => h.operationsAfter level first hmid

/-- Ternaries agree. -/
theorem AlikeExpressions.ternary (h : L.AlikeExpressions n m) (hs : L.Before s s') :
    L.Agree L.Before (Lox.expressionAt (n + 1) .ternary s) (Lox.expressionAt (m + 1) .ternary s') := by
  rw [Lox.expressionAt, Lox.expressionAt]
  refine agree_bind (h.expressionAt _ hs) fun test mid mid' hmid => ?_
  refine agree_ifSymbol hmid (by decide) (fun _ hmid => ?_) (agree_pure hmid)
  refine agree_bind (h.expressionAt _ hmid) fun ifTrue mid₁ mid₁' hmid₁ => ?_
  refine agree_bind (agree_expectSymbol hmid₁ (by decide)) fun _ mid₂ mid₂' hmid₂ => ?_
  exact agree_bind (h.expressionAt _ hmid₂) fun ifFalse mid₃ mid₃' hmid₃ => agree_pure hmid₃

/-- What is read behind prefix signs agrees. -/
theorem AlikeExpressions.unary (h : L.AlikeExpressions n m) (hs : L.Before s s') :
    L.Agree L.Before (Lox.expressionAt (n + 1) .unary s) (Lox.expressionAt (m + 1) .unary s') := by
  rw [Lox.expressionAt, Lox.expressionAt]
  refine agree_bind_takeSome hs rfl rfl (fun op hmid => ?_) (h.expressionAt .call hs)
  exact agree_bind (h.expressionAt .unary hmid) fun operand mid₁ mid₁' hmid₁ => agree_pure hmid₁

/-- Chains of calls and accesses agree. -/
theorem AlikeExpressions.call (h : L.AlikeExpressions n m) (hs : L.Before s s') :
    L.Agree L.Before (Lox.expressionAt (n + 1) .call s) (Lox.expressionAt (m + 1) .call s') := by
  rw [Lox.expressionAt, Lox.expressionAt]
  exact agree_bind (h.expressionAt .primary hs) fun first mid mid' hmid => h.accessesAfter first hmid

/-- What stands on its own agrees. -/
theorem AlikeExpressions.primary (h : L.AlikeExpressions n m) (hs : L.Before s s') :
    L.Agree L.Before (Lox.expressionAt (n + 1) .primary s) (Lox.expressionAt (m + 1) .primary s') := by
  rw [Lox.expressionAt, Lox.expressionAt, bind_of_reads (reads_next.2 ⟨rfl, rfl⟩),
    bind_of_reads (reads_next.2 ⟨rfl, rfl⟩), L.content hs]
  cases hpeek : s.peek.content with
  | error e => exact agree_fail hs
  | ok t =>
    by_cases hsemicolon : t = .semicolon
    · subst hsemicolon
      exact agree_fail hs
    obtain ⟨hmid, hclear⟩ := L.advance hs (by rw [hpeek]; exact fun heq => hsemicolon (Except.ok.inj heq))
    dsimp only
    cases hexpression : t.expression? with
    | some e => exact agree_pure hmid
    | none =>
      dsimp only
      split
      · refine agree_bind (agree_expectSymbol hmid (by decide)) fun _ mid₁ mid₁' hmid₁ => ?_
        exact agree_bind (agree_expectIdentifier hmid₁) fun method mid₂ mid₂' hmid₂ => agree_pure hmid₂
      · refine agree_bind (h.expressionAt _ hmid) fun inner mid₁ mid₁' hmid₁ => ?_
        exact agree_bind (agree_expectSymbol hmid₁ (by decide)) fun _ mid₂ mid₂' hmid₂ => agree_pure hmid₂
      · exact agree_bind (h.expressions _ hmid) fun items mid₁ mid₁' hmid₁ => agree_pure hmid₁
      · split
        · rw [L.position hs]
          exact agree_report_attempt_panic hclear (h.expressionAt _ hmid)
        · exact agree_fail hs

/-- The operators of a level agree. -/
theorem AlikeExpressions.operations (h : L.AlikeExpressions n m) {level : InfixLevel} {left : Expr}
    (hs : L.Before s s') :
    L.Agree L.Before (Lox.operationsAfter (n + 1) level left s) (Lox.operationsAfter (m + 1) level left s') := by
  rw [Lox.operationsAfter, Lox.operationsAfter]
  refine agree_bind_takeSome hs (by cases level <;> rfl) (by cases level <;> rfl) (fun op hmid => ?_) (agree_pure hs)
  exact agree_bind (h.expressionAt _ hmid) fun right mid₁ mid₁' hmid₁ => h.operationsAfter _ _ hmid₁

/-- Calls and accesses agree. -/
theorem AlikeExpressions.accesses (h : L.AlikeExpressions n m) {object : Expr} (hs : L.Before s s') :
    L.Agree L.Before (Lox.accessesAfter (n + 1) object s) (Lox.accessesAfter (m + 1) object s') := by
  rw [Lox.accessesAfter, Lox.accessesAfter]
  refine agree_ifSymbol hs (by decide) (fun _ hmid => ?_) <| agree_ifSymbol hs (by decide) (fun _ hmid => ?_) <|
    agree_ifSymbol hs (by decide) (fun _ hmid => ?_) (agree_pure hs)
  · exact agree_bind (h.expressions _ hmid) fun arguments mid₁ mid₁' hmid₁ => h.accessesAfter _ hmid₁
  · exact agree_bind (agree_expectIdentifier hmid) fun name mid₁ mid₁' hmid₁ => h.accessesAfter _ hmid₁
  · refine agree_bind (h.expressionAt _ hmid) fun position mid₁ mid₁' hmid₁ => ?_
    exact agree_bind (agree_expectSymbol hmid₁ (by decide)) fun _ mid₂ mid₂' hmid₂ => h.accessesAfter _ hmid₂

/-- A list does not close with a semicolon. -/
theorem close_ne_semicolon (listing : Listing) : listing.close ≠ .semicolon := by
  cases listing <;> exact nofun

/-- Lists of expressions agree. -/
theorem AlikeExpressions.listing (h : L.AlikeExpressions n m) {listing : Listing} (hs : L.Before s s') :
    L.Agree L.Before (Lox.expressions (n + 1) listing s) (Lox.expressions (m + 1) listing s') := by
  rw [Lox.expressions, Lox.expressions]
  exact agree_ifSymbol hs (close_ne_semicolon listing) (fun _ hmid => agree_pure hmid) (h.expressionsFrom listing 0 hs)

/-- The expressions of a list agree. -/
theorem AlikeExpressions.listingFrom (h : L.AlikeExpressions n m) {listing : Listing} {before : Nat}
    (hs : L.Before s s') :
    L.Agree L.Before (Lox.expressionsFrom (n + 1) listing before s)
      (Lox.expressionsFrom (m + 1) listing before s') := by
  rw [Lox.expressionsFrom, Lox.expressionsFrom]
  refine agree_reportIf hs ?_ fun hsemicolon => (balks_expressionAt hsemicolon n .assignment).bind
  refine agree_bind (h.expressionAt _ hs) fun first mid mid' hmid => ?_
  refine agree_ifSymbol hmid (by decide) (fun _ hmid₁ => ?_) ?_
  · exact agree_bind (h.expressionsFrom _ _ hmid₁) fun others mid₂ mid₂' hmid₂ => agree_pure hmid₂
  · exact agree_bind (agree_expectSymbol hmid (close_ne_semicolon listing)) fun _ mid₂ mid₂' hmid₂ => agree_pure hmid₂

/-- The parsers of expressions agree. -/
theorem alikeExpressions : ∀ {n m : Nat}, n ≤ m → L.AlikeExpressions n m
  | 0, _, _ => by
    constructor <;> intros <;>
      simp only [expressionAt, operationsAfter, accessesAfter, expressions, expressionsFrom] <;> exact .starved
  | n + 1, 0, h => absurd h (Nat.not_succ_le_zero n)
  | n + 1, m + 1, hn => by
    have h : L.AlikeExpressions n m := alikeExpressions (Nat.le_of_succ_le_succ hn)
    refine ⟨fun level s s' hs => ?_, fun _ _ _ _ hs => h.operations hs, fun _ _ _ hs => h.accesses hs,
      fun _ _ _ hs => h.listing hs, fun _ _ _ _ hs => h.listingFrom hs⟩
    cases level with
    | assignment => exact h.assignment hs
    | between level => exact h.between hs
    | ternary => exact h.ternary hs
    | unary => exact h.unary hs
    | call => exact h.call hs
    | primary => exact h.primary hs

/-! ## Statements -/

/-- Whole expressions agree. -/
theorem agree_expression (hn : n ≤ m) (hs : L.Before s s') : L.Agree L.Before (expression n s) (expression m s') :=
  (alikeExpressions hn).expressionAt .assignment hs

/-- An expression and the semicolon behind it agree. -/
theorem agree_expression_semicolon {α : Type} {fault : Fault} (result : Expr → α) (hn : n ≤ m) (hs : L.Before s s') :
    L.Agree L.Behind
      ((do
        let e ← expression n
        expectSymbol .semicolon fault
        pure (result e)) s)
      ((do
        let e ← expression m
        expectSymbol .semicolon fault
        pure (result e)) s') := by
  refine agree_bind (agree_expression hn hs) fun e mid mid' hmid => ?_
  exact agree_bind (agree_expectSemicolon hmid) fun _ _ _ hmid₁ => agree_pure hmid₁

/-- An expression that may be missing agrees with the semicolon behind it. -/
theorem agree_optional_semicolon {α : Type} {fault : Fault} (result : Option Expr → α) (hn : n ≤ m)
    (hs : L.Before s s') :
    L.Agree L.Behind
      ((do
        if ← takeSymbol .semicolon then pure (result none)
        else
          let e ← expression n
          expectSymbol .semicolon fault
          pure (result (some e))) s)
      ((do
        if ← takeSymbol .semicolon then pure (result none)
        else
          let e ← expression m
          expectSymbol .semicolon fault
          pure (result (some e))) s') :=
  agree_ifSemicolon hs (fun hmid => agree_pure hmid) (agree_expression_semicolon (fun e => result (some e)) hn hs)

/-- Variable declarations agree. -/
theorem agree_variableDeclaration (hn : n ≤ m) (hs : L.Before s s') :
    L.Agree L.Behind (variableDeclaration n s) (variableDeclaration m s') := by
  refine agree_bind (agree_expectIdentifier hs) fun name mid mid' hmid => ?_
  refine agree_ifSymbol hmid (by decide) (fun _ hmid => ?_) ?_
  · refine agree_bind (agree_expression hn hmid) fun value mid₁ mid₁' hmid₁ => ?_
    refine agree_bind (agree_pure hmid₁) fun init mid₂ mid₂' hmid₂ => ?_
    exact agree_bind (agree_expectSemicolon hmid₂) fun _ _ _ hmid₃ => agree_pure hmid₃
  · refine agree_bind (agree_pure hmid) fun init mid₁ mid₁' hmid₁ => ?_
    exact agree_bind (agree_expectSemicolon hmid₁) fun _ _ _ hmid₂ => agree_pure hmid₂

/-- What starts a `for` loop agrees. -/
theorem agree_forInit (hn : n ≤ m) (hs : L.Before s s') : L.Agree L.Behind (forInit n s) (forInit m s') := by
  refine agree_ifSemicolon hs (fun hmid => agree_pure hmid) <| agree_ifKeyword hs (fun _ hmid => ?_) ?_
  · exact agree_bind (agree_variableDeclaration hn hmid) fun _ _ _ hmid₁ => agree_pure hmid₁
  · exact agree_bind (agree_expression_semicolon Stmt.expression hn hs) fun _ _ _ hmid => agree_pure hmid

/-- The increment of a `for` loop agrees. -/
theorem agree_forIncrement (hn : n ≤ m) (hs : L.Before s s') :
    L.Agree L.Before (forIncrement n s) (forIncrement m s') := by
  refine agree_ifSymbol hs (by decide) (fun _ hmid => agree_pure hmid) ?_
  refine agree_bind (agree_expression hn hs) fun e mid mid' hmid => ?_
  exact agree_bind (agree_expectSymbol hmid (by decide)) fun _ _ _ hmid₁ => agree_pure hmid₁

/-- Parameters behind others agree. -/
theorem agree_parametersFrom : ∀ {n m : Nat} (count : Nat) {s s' : TokenStream}, n ≤ m → L.Before s s' →
    L.Agree L.Before (parametersFrom n count s) (parametersFrom m count s')
  | 0, _, _, _, _, _, _ => .starved
  | n + 1, 0, _, _, _, hn, _ => absurd hn (Nat.not_succ_le_zero n)
  | n + 1, m + 1, count, s, s', hn, hs => by
    rw [parametersFrom, parametersFrom]
    refine agree_ifSymbol hs (by decide) (fun _ hmid => ?_) (agree_pure hs)
    refine agree_reportIf hmid ?_ fun hsemicolon => (balks_expectIdentifier hsemicolon).bind
    refine agree_bind (agree_expectIdentifier hmid) fun name mid₁ mid₁' hmid₁ => ?_
    have hothers := agree_parametersFrom (count + 1) (Nat.le_of_succ_le_succ hn) hmid₁
    exact agree_bind hothers fun others mid₂ mid₂' hmid₂ => agree_pure hmid₂

/-- Parameters agree. -/
theorem agree_parameters (hn : n ≤ m) (hs : L.Before s s') : L.Agree L.Before (parameters n s) (parameters m s') := by
  refine agree_ifSymbol hs (by decide) (fun _ hmid => agree_pure hmid) ?_
  refine agree_bind (agree_expectIdentifier hs) fun first mid mid' hmid => ?_
  refine agree_bind (agree_parametersFrom 1 hn hmid) fun others mid₁ mid₁' hmid₁ => ?_
  exact agree_bind (agree_expectSymbol hmid₁ (by decide)) fun _ _ _ hmid₂ => agree_pure hmid₂

/-- The parent of a class agrees. -/
theorem agree_parentClass (hs : L.Before s s') : L.Agree L.Before (parentClass s) (parentClass s') := by
  refine agree_ifSymbol hs (by decide) (fun _ hmid => ?_) (agree_pure hs)
  exact agree_bind (agree_expectIdentifier hmid) fun name mid mid' hmid₁ => agree_pure hmid₁

/-- The parsers of statements agree. What is between braces is read only if the streams are alike throughout. -/
structure AlikeStatements (L : Likeness) (n m : Nat) : Prop where
  declaration : ∀ {s s'}, L.Before s s' → L.Agree L.Behind (declaration n s) (declaration m s')
  statement : ∀ {s s'}, L.Before s s' → L.Agree L.Behind (statement n s) (statement m s')
  blockRest : L.IsTotal → ∀ {s s'}, L.Before s s' → L.Agree L.Behind (blockRest n s) (blockRest m s')
  function : ∀ {s s'}, L.Before s s' → L.Agree L.Behind (function n s) (function m s')
  methods : L.IsTotal → ∀ {s s'}, L.Before s s' → L.Agree L.Behind (methods n s) (methods m s')

/-- Declarations agree. -/
theorem AlikeStatements.declares (h : L.AlikeStatements n m) (hn : n ≤ m) (hs : L.Before s s') :
    L.Agree L.Behind (Lox.declaration (n + 1) s) (Lox.declaration (m + 1) s') := by
  rw [Lox.declaration, Lox.declaration]
  refine agree_ifKeyword hs (fun _ hmid => agree_variableDeclaration hn hmid) <|
    agree_ifKeyword hs (fun _ hmid => ?_) <| agree_ifKeyword hs (fun _ hmid => ?_) (h.statement hs)
  · exact agree_bind (h.function hmid) fun f _ _ hmid₁ => agree_pure hmid₁
  · refine agree_bind (agree_expectIdentifier hmid) fun name mid₁ mid₁' hmid₁ => ?_
    refine agree_bind (agree_parentClass hmid₁) fun parent mid₂ mid₂' hmid₂ => ?_
    refine agree_bind_expectBrace hmid₂ fun mid₃ mid₃' hmid₃ htotal => ?_
    exact agree_bind (h.methods htotal hmid₃) fun body _ _ hmid₄ => agree_pure hmid₄

/-- `for` loops agree. -/
theorem AlikeStatements.counted (h : L.AlikeStatements n m) (hn : n ≤ m) (hs : L.Before s s') (htotal : L.IsTotal) :
    L.Agree L.Behind
      ((do
        expectSymbol .leftParen .forUnparenthesized
        let init ← forInit n
        let test ← forTest n
        let increment ← forIncrement n
        let body ← Lox.statement n
        pure (Stmt.forLoop init test increment body)) s)
      ((do
        expectSymbol .leftParen .forUnparenthesized
        let init ← forInit m
        let test ← forTest m
        let increment ← forIncrement m
        let body ← Lox.statement m
        pure (Stmt.forLoop init test increment body)) s') := by
  refine agree_bind (agree_expectSymbol hs (by decide)) fun _ mid mid' hmid => ?_
  refine agree_bind (agree_forInit hn hmid) fun start mid₁ mid₁' hmid₁ => ?_
  have hmid₁ : L.Before mid₁ mid₁' := (htotal.1 _ _).2 hmid₁
  refine agree_bind (agree_optional_semicolon id hn hmid₁) fun test mid₂ mid₂' hmid₂ => ?_
  have hmid₂ : L.Before mid₂ mid₂' := (htotal.1 _ _).2 hmid₂
  refine agree_bind (agree_forIncrement hn hmid₂) fun increment mid₃ mid₃' hmid₃ => ?_
  exact agree_bind (h.statement hmid₃) fun body _ _ hmid₄ => agree_pure hmid₄

/-- Statements agree. -/
theorem AlikeStatements.states (h : L.AlikeStatements n m) (hn : n ≤ m) (hs : L.Before s s') :
    L.Agree L.Behind (Lox.statement (n + 1) s) (Lox.statement (m + 1) s') := by
  rw [Lox.statement, Lox.statement]
  refine agree_ifKeyword hs (fun _ hmid => ?_) <| agree_ifKeyword hs (fun _ hmid => ?_) <|
    agree_ifKeyword hs (fun hfor hmid => ?_) <|
    agree_ifKeyword hs (fun _ hmid => agree_expression_semicolon Stmt.print hn hmid) <|
    agree_ifKeyword hs (fun _ hmid => agree_optional_semicolon Stmt.returnValue hn hmid) <|
    agree_ifKeyword hs (fun _ hmid => ?_) <| agree_ifSymbol hs (by decide) (fun hbrace hmid => ?_)
      (agree_expression_semicolon Stmt.expression hn hs)
  · -- `if`
    refine agree_bind (agree_expectSymbol hmid (by decide)) fun _ mid₁ mid₁' hmid₁ => ?_
    refine agree_bind (agree_expression hn hmid₁) fun test mid₂ mid₂' hmid₂ => ?_
    refine agree_bind (agree_expectSymbol hmid₂ (by decide)) fun _ mid₃ mid₃' hmid₃ => ?_
    refine agree_bind (h.statement hmid₃) fun branch mid₄ mid₄' hmid₄ => ?_
    refine agree_ifElse hmid₄ (fun hmid₅ => ?_) (agree_pure hmid₄)
    exact agree_bind (h.statement hmid₅) fun other _ _ hmid₆ => agree_pure hmid₆
  · -- `while`
    refine agree_bind (agree_expectSymbol hmid (by decide)) fun _ mid₁ mid₁' hmid₁ => ?_
    refine agree_bind (agree_expression hn hmid₁) fun test mid₂ mid₂' hmid₂ => ?_
    refine agree_bind (agree_expectSymbol hmid₂ (by decide)) fun _ mid₃ mid₃' hmid₃ => ?_
    exact agree_bind (h.statement hmid₃) fun body _ _ hmid₄ => agree_pure hmid₄
  · exact h.counted hn hmid (L.several hs (.inr (content_peek_of_starts hfor)))
  · exact agree_bind (agree_expectSemicolon hmid) fun _ _ _ hmid₁ => agree_pure hmid₁
  · have htotal : L.IsTotal := L.several hs (.inl (content_peek_of_starts hbrace))
    exact agree_bind (h.blockRest htotal hmid) fun body _ _ hmid₁ => agree_pure hmid₁

/-- Blocks agree. -/
theorem AlikeStatements.block (h : L.AlikeStatements n m) (htotal : L.IsTotal) (hs : L.Before s s') :
    L.Agree L.Behind (Lox.blockRest (n + 1) s) (Lox.blockRest (m + 1) s') := by
  rw [Lox.blockRest, Lox.blockRest]
  refine agree_bind_nextIs hs fun found => ?_
  cases found with
  | true => exact agree_bind (agree_expectSymbol hs (by decide)) fun _ _ _ hmid => agree_pure ((htotal.1 _ _).1 hmid)
  | false =>
    refine agree_bind (h.declaration hs) fun first mid mid' hmid => ?_
    exact agree_bind (h.blockRest htotal ((htotal.1 _ _).2 hmid)) fun others _ _ hmid₁ => agree_pure hmid₁

/-- Functions agree. -/
theorem AlikeStatements.defines (h : L.AlikeStatements n m) (hn : n ≤ m) (hs : L.Before s s') :
    L.Agree L.Behind (Lox.function (n + 1) s) (Lox.function (m + 1) s') := by
  rw [Lox.function, Lox.function]
  refine agree_bind (agree_expectIdentifier hs) fun name mid mid' hmid => ?_
  refine agree_bind (agree_expectSymbol hmid (by decide)) fun _ mid₁ mid₁' hmid₁ => ?_
  refine agree_bind (agree_parameters hn hmid₁) fun names mid₂ mid₂' hmid₂ => ?_
  refine agree_bind_expectBrace hmid₂ fun mid₃ mid₃' hmid₃ htotal => ?_
  exact agree_bind (h.blockRest htotal hmid₃) fun body _ _ hmid₄ => agree_pure hmid₄

/-- Methods agree. -/
theorem AlikeStatements.members (h : L.AlikeStatements n m) (htotal : L.IsTotal) (hs : L.Before s s') :
    L.Agree L.Behind (Lox.methods (n + 1) s) (Lox.methods (m + 1) s') := by
  rw [Lox.methods, Lox.methods]
  refine agree_ifSymbol hs (by decide) (fun _ hmid => agree_pure ((htotal.1 _ _).1 hmid)) ?_
  refine agree_bind_atEof hs fun found => ?_
  cases found with
  | true =>
    have hposition : s'.peekPosition = L.place s.peekPosition := L.position hs
    show L.Agree L.Behind (.panic s [⟨s.peekPosition, .classBodyUnclosed⟩])
      (.panic s' [⟨s'.peekPosition, .classBodyUnclosed⟩])
    rw [hposition]
    have hclear : L.Clear [⟨s.peekPosition, .classBodyUnclosed⟩] := clear_cons.2 ⟨htotal.2 _, clear_nil⟩
    exact .panic hs hclear
  | false =>
    refine agree_bind (h.function hs) fun first mid mid' hmid => ?_
    exact agree_bind (h.methods htotal ((htotal.1 _ _).2 hmid)) fun others _ _ hmid₁ => agree_pure hmid₁

/-- The parsers of statements agree. -/
theorem alikeStatements : ∀ {n m : Nat}, n ≤ m → L.AlikeStatements n m
  | 0, _, _ => by
    constructor <;> intros <;> simp only [declaration, statement, blockRest, function, methods] <;> exact .starved
  | n + 1, 0, h => absurd h (Nat.not_succ_le_zero n)
  | n + 1, m + 1, hn => by
    have hn := Nat.le_of_succ_le_succ hn
    have h : L.AlikeStatements n m := alikeStatements hn
    exact ⟨fun hs => h.declares hn hs, fun hs => h.states hn hs, fun htotal _ _ hs => h.block htotal hs,
      fun hs => h.defines hn hs, fun htotal _ _ hs => h.members htotal hs⟩

end Lox.Likeness
