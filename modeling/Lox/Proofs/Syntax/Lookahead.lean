import Lox.Proofs.Grammar.Spelling
import Lox.Proofs.Token.Division
import Lox.Proofs.Token.Lookahead
import Lox.Syntax.Statement

/-!
# Parsers behind a lookahead

A text is read from a lookahead that scans as it goes. What is read from it is what is read from the token stream that
has all items of the text from the start (`Program.parse_eq`): the lookahead shows the items of the stream
(`Lookahead.Shows`), every operation answers the same on both and keeps this, and so does every parser
(`Parser.Mirrors`), as it does nothing but these.
-/

namespace Lox

/-! ## What is shown -/

namespace TokenStream

/-- What a token stream yields. -/
def items (s : TokenStream) : Stream' Item :=
  s.upcoming ++ₛ Stream'.const (Item.eof s.ending)

/-- The next item is the first. -/
theorem head_items (s : TokenStream) : s.items.head = s.peek := by
  obtain ⟨upcoming, ending⟩ := s
  cases upcoming <;> rfl

/-- Behind the next item, the others are to come. -/
theorem tail_items (s : TokenStream) : s.items.tail = s.advance.items := by
  obtain ⟨upcoming, ending⟩ := s
  cases upcoming with
  | nil => exact Stream'.tail_const _
  | cons item others => rfl

/-- Items are passed over until one is a semicolon. -/
theorem behindSemicolon_cons (item : Item) (others : List Item) (ending : Position) :
    behindSemicolon ⟨item :: others, ending⟩ =
      if item.token?.any (Token.isSymbol .semicolon) then ⟨others, ending⟩ else behindSemicolon ⟨others, ending⟩ := by
  rw [behindSemicolon, behindSemicolon, List.dropWhile_cons]
  cases item.token?.any (Token.isSymbol .semicolon) <;> rfl

end TokenStream

/-- An item that is a token of some symbol holds it. -/
theorem Item.content_of_isSymbol {item : Item} {symbol : Symbol}
    (h : item.token?.any (Token.isSymbol symbol) = true) : item.content = .ok (.symbol symbol) := by
  obtain ⟨position, content⟩ := item
  cases content with
  | error e => exact nomatch h
  | ok t =>
    have ht : t = .symbol symbol := Token.isSymbol_iff.1 h
    rw [ht]

namespace Lookahead

variable {l : Lookahead} {s : TokenStream} {α : Type}

/-- Behind the last item that the scanner is to yield, there is the end mark. -/
theorem content_get_items (l : Lookahead) : (l.items.get (l.scanner.length + 1)).content = .ok .eof := by
  obtain ⟨scanner, peeked, last⟩ := l
  cases peeked with
  | none =>
    rw [items_scanned, Stream'.get_append_right]
    rfl
  | some item =>
    have hnext : Lookahead.next ⟨scanner, some item, last⟩ = (item, ⟨scanner, none, last⟩) := rfl
    rw [items_eq, hnext, Stream'.get_succ_cons, items_scanned, Stream'.get_append_length]
    rfl

/-- A lookahead yields what a token stream yields, in which no end mark stands before the end. -/
structure Shows (l : Lookahead) (s : TokenStream) : Prop where
  items_eq : l.items = s.items
  ne_eof : ∀ item ∈ s.upcoming, item.content ≠ .ok .eof

/-- The lookahead of a text shows its token stream. -/
theorem shows_ofText (text : String) : (ofText text).Shows (TokenStream.ofText text) where
  items_eq := by
    have hend : [Item.eof (endPosition text)] ++ₛ Stream'.const (Item.eof (endPosition text)) =
        Stream'.const (Item.eof (endPosition text)) := (Stream'.const_eq _).symm
    rw [items_ofText, itemsOf, scan_eq, Stream'.append_append_stream, hend]
    rfl
  ne_eof _ hitem := content_ne_eof_of_mem_scanItems hitem

namespace Shows

variable (h : l.Shows s)

include h

/-- The same item is next. -/
theorem head_eq : l.items.head = s.peek := by
  rw [h.items_eq, s.head_items]

/-- Behind a look, the same is shown. -/
theorem peek : l.peek.2.Shows s :=
  ⟨(items_peek l).trans h.items_eq, h.ne_eof⟩

/-- Behind the next item, what is behind it is shown. -/
theorem next : l.next.2.Shows s.advance where
  items_eq := by rw [items_next, h.items_eq, s.tail_items]
  ne_eof item hitem := h.ne_eof item (List.mem_of_mem_tail hitem)

/-- What is taken by a condition is the same, and what is then shown. -/
theorem nextIf (p : Token → Bool) : (l.nextIf p).1 = (s.nextIf p).1 ∧ (l.nextIf p).2.Shows (s.nextIf p).2 := by
  rw [nextIf_eq, h.head_eq, TokenStream.nextIf]
  split
  · exact ⟨rfl, h.next⟩
  · exact ⟨rfl, h.peek⟩

/-- What is got from the next token is the same, and what is then shown. -/
theorem nextIfSome (f : Token → Option α) :
    (l.nextIfSome f).1 = (s.nextIfSome f).1 ∧ (l.nextIfSome f).2.Shows (s.nextIfSome f).2 := by
  rw [nextIfSome_eq, h.head_eq, TokenStream.nextIfSome]
  cases s.peek.token?.bind f with
  | some a => exact ⟨rfl, h.next⟩
  | none => exact ⟨rfl, h.peek⟩

/-- What the scanner is still to yield and what has been looked at are at least the items that are shown. -/
theorem length_upcoming_le : s.upcoming.length ≤ l.scanner.length + 1 := by
  by_contra hlength
  have hlt : l.scanner.length + 1 < s.upcoming.length := by omega
  have hget : l.items.get (l.scanner.length + 1) = s.upcoming[l.scanner.length + 1] := by
    rw [h.items_eq, TokenStream.items, Stream'.get_append_left]
  have hend := content_get_items l
  rw [hget] at hend
  exact h.ne_eof _ (List.getElem_mem hlt) hend

end Shows

/-- Skipping ends behind the next semicolon, if there are steps enough. -/
theorem Shows.skipWithin : ∀ {n : Nat} {l : Lookahead} {s : TokenStream}, l.Shows s → s.upcoming.length < n →
    (skipWithin n l).Shows s.behindSemicolon
  | n + 1, l, s, h, hn => by
    have hlook : l.peek = (s.peek, l.peek.2) := Prod.ext (l.peek_fst.trans h.head_eq) rfl
    have hrest : l.peek.2.next.2 = l.next.2 := congrArg Prod.snd l.next_peek
    rw [Lookahead.skipWithin, hlook]
    dsimp only
    rw [hrest]
    obtain ⟨upcoming, ending⟩ := s
    cases upcoming with
    | nil => exact h.peek
    | cons item others =>
      have hothers : l.next.2.Shows ⟨others, ending⟩ := h.next
      have hpeek : TokenStream.peek ⟨item :: others, ending⟩ = item := rfl
      rw [hpeek, TokenStream.behindSemicolon_cons]
      -- The lookahead also stops at an end mark, of which there is none among the items.
      split
      next hcontent =>
        rw [if_pos (by simp [Item.token?, hcontent, Token.isSymbol])]
        exact hothers
      next hcontent => exact absurd hcontent (h.ne_eof item List.mem_cons_self)
      next hsemicolon _ =>
        rw [if_neg fun hany => hsemicolon (Item.content_of_isSymbol hany)]
        exact hothers.skipWithin (Nat.lt_of_succ_lt_succ hn)

/-- Behind the next semicolon, what is behind it is shown. -/
theorem Shows.skipPastSemicolon (h : l.Shows s) : l.skipPastSemicolon.Shows s.behindSemicolon :=
  h.skipWithin (Nat.lt_succ_of_le h.length_upcoming_le)

end Lookahead

/-! ## Parsers -/

/-- The results of reading from a lookahead and from a token stream agree, and what is left is shown. -/
inductive ParsedOn.Mirrors {α : Type} : ParsedOn Lookahead α → Parsed α → Prop
  | ok {l : Lookahead} {s : TokenStream} {a : α} {reports : List Diagnostic} (h : l.Shows s) :
    Mirrors (.ok a l reports) (.ok a s reports)
  | panic {l : Lookahead} {s : TokenStream} {reports : List Diagnostic} (h : l.Shows s) :
    Mirrors (.panic l reports) (.panic s reports)
  | starved : Mirrors .starved .starved

/-- What was reported before is reported of both. -/
theorem ParsedOn.Mirrors.after {α : Type} {r : ParsedOn Lookahead α} {r' : Parsed α} (h : r.Mirrors r')
    (earlier : List Diagnostic) : (r.after earlier).Mirrors (r'.after earlier) := by
  cases h with
  | ok h => exact .ok h
  | panic h => exact .panic h
  | starved => exact .starved

/-- Results that agree say the same about the text. -/
theorem ParsedOn.Mirrors.verdict_eq {r : ParsedOn Lookahead Program} {r' : Parsed Program} (h : r.Mirrors r') :
    r.verdict = r'.verdict := by
  cases h with
  | ok h => rename_i reports; cases reports <;> rfl
  | panic h => rfl
  | starved => rfl

namespace Parser

variable {α β : Type} {p p' : ParserOn Lookahead α} {q q' : Parser α} {position : Position} {fault : Fault}
  {symbol : Symbol} {keyword : Keyword}

/-- A parser does on a lookahead what another does on the token stream that it shows. -/
def Mirrors (p : ParserOn Lookahead α) (q : Parser α) : Prop :=
  ∀ l s, l.Shows s → (p l).Mirrors (q s)

/-- Nothing is read for what is known already. -/
theorem mirrors_pure {a : α} : Mirrors (pure a) (pure a) :=
  fun _ _ h => .ok h

/-- One parser and then another. -/
theorem Mirrors.bind {f : α → ParserOn Lookahead β} {g : α → Parser β} (hp : Mirrors p q)
    (hf : ∀ a, Mirrors (f a) (g a)) : Mirrors (p >>= f) (q >>= g) := by
  intro l s h
  have hr := hp l s h
  show (Parser.bind p f l).Mirrors (Parser.bind q g s)
  rw [Parser.bind, Parser.bind]
  generalize p l = r at hr ⊢
  generalize q s = r' at hr ⊢
  cases hr with
  | ok hrest => exact (hf _ _ _ hrest).after _
  | panic hrest => exact .panic hrest
  | starved => exact .starved

/-- Nothing is read without steps. -/
theorem mirrors_starve : Mirrors (starve (α := α)) starve :=
  fun _ _ _ => .starved

/-- Giving up leaves what is there. -/
theorem mirrors_panic : Mirrors (panic (α := α)) panic :=
  fun _ _ h => .panic h

/-- A report leaves what is there. -/
theorem mirrors_report : Mirrors (report position fault) (report position fault) :=
  fun _ _ h => .ok h

/-- So does giving up with a report. -/
theorem mirrors_fail : Mirrors (fail (α := α) position fault) (fail position fault) :=
  fun _ _ h => .panic h

/-- A panic ends at an attempt. -/
theorem Mirrors.attempt (hp : Mirrors p q) : Mirrors (attempt p) (attempt q) := by
  intro l s h
  have hr := hp l s h
  rw [Parser.attempt, Parser.attempt]
  generalize p l = r at hr ⊢
  generalize q s = r' at hr ⊢
  cases hr with
  | ok hrest => exact .ok hrest
  | panic hrest => exact .ok hrest
  | starved => exact .starved

/-- What is answered the same, with the same shown behind it, is read. -/
theorem mirrors_of_answer (answer : Lookahead → α × Lookahead) (answer' : TokenStream → α × TokenStream) (f : α → β)
    (h : ∀ l s, l.Shows s → (answer l).1 = (answer' s).1 ∧ (answer l).2.Shows (answer' s).2) :
    Mirrors (fun l => .ok (f (answer l).1) (answer l).2 []) fun s => .ok (f (answer' s).1) (answer' s).2 [] := by
  intro l s hshows
  obtain ⟨hanswer, hrest⟩ := h l s hshows
  dsimp only
  rw [hanswer]
  exact .ok hrest

/-- The place of a report is that of the next item. -/
theorem mirrors_reportIf {condition : Bool} : Mirrors (reportIf condition fault) (reportIf condition fault) := by
  intro l s h
  cases condition with
  | false => exact .ok h
  | true =>
    have hposition : l.peekPosition.1 = s.peekPosition := congrArg Item.position (l.peek_fst.trans h.head_eq)
    show ParsedOn.Mirrors (.ok () l.peekPosition.2 [⟨l.peekPosition.1, fault⟩]) (.ok () s [⟨s.peekPosition, fault⟩])
    rw [hposition]
    exact .ok h.peek

/-- The next item is the same. -/
theorem mirrors_next : Mirrors next next :=
  mirrors_of_answer Lookahead.next TokenStream.next id fun l _ h => ⟨l.next_fst.trans h.head_eq, h.next⟩

/-- What is got from the next token is the same. -/
theorem mirrors_takeSome {g : Token → Option α} : Mirrors (takeSome g) (takeSome g) :=
  mirrors_of_answer (·.nextIfSome g) (·.nextIfSome g) id fun _ _ h => h.nextIfSome g

/-- The next item is the symbol for both or for neither, and its place is the same. -/
theorem mirrors_takeSymbol? : Mirrors (takeSymbol? symbol) (takeSymbol? symbol) :=
  mirrors_of_answer (·.nextIf (Token.isSymbol symbol)) (·.nextIf (Token.isSymbol symbol)) (Option.map Item.position)
    fun _ _ h => h.nextIf _

/-- A choice by a symbol. -/
theorem mirrors_ifSymbol (hp : Mirrors p q) (hp' : Mirrors p' q') :
    Mirrors (do if ← takeSymbol symbol then p else p') (do if ← takeSymbol symbol then q else q') := by
  have htaken : Mirrors (takeSymbol symbol) (takeSymbol symbol) :=
    mirrors_of_answer (·.nextIf (Token.isSymbol symbol)) (·.nextIf (Token.isSymbol symbol)) Option.isSome fun _ _ h =>
      h.nextIf _
  refine htaken.bind fun taken => ?_
  cases taken with
  | true => exact hp
  | false => exact hp'

/-- A choice by a keyword. -/
theorem mirrors_ifKeyword (hp : Mirrors p q) (hp' : Mirrors p' q') :
    Mirrors (do if ← takeKeyword keyword then p else p') (do if ← takeKeyword keyword then q else q') := by
  have htaken : Mirrors (takeKeyword keyword) (takeKeyword keyword) :=
    mirrors_of_answer (·.nextIf (Token.isKeyword keyword)) (·.nextIf (Token.isKeyword keyword)) Option.isSome
      fun _ _ h => h.nextIf _
  refine htaken.bind fun taken => ?_
  cases taken with
  | true => exact hp
  | false => exact hp'

/-- A choice by a look at the next item. -/
theorem mirrors_ifNextIs {r : Token → Bool} (hp : Mirrors p q) (hp' : Mirrors p' q') :
    Mirrors (do if ← nextIs r then p else p') (do if ← nextIs r then q else q') := by
  have hlook : Mirrors (nextIs r) (nextIs r) :=
    mirrors_of_answer Lookahead.peek (fun s => (s.peek, s)) (fun item => item.token?.any r) fun l _ h =>
      ⟨l.peek_fst.trans h.head_eq, h.peek⟩
  refine hlook.bind fun found => ?_
  cases found with
  | true => exact hp
  | false => exact hp'

/-- A choice by whether the end is reached. -/
theorem mirrors_ifAtEof (hp : Mirrors p q) (hp' : Mirrors p' q') :
    Mirrors (do if ← atEof then p else p') (do if ← atEof then q else q') :=
  mirrors_ifNextIs hp hp'

/-- The same is skipped. -/
theorem mirrors_skipPastSemicolon : Mirrors skipPastSemicolon skipPastSemicolon :=
  fun _ _ h => .ok h.skipPastSemicolon

/-- Where a symbol is expected, the same stands there. -/
theorem mirrors_expectSymbol : Mirrors (expectSymbol symbol fault) (expectSymbol symbol fault) := by
  refine mirrors_next.bind fun item => ?_
  cases item.content with
  | error e => exact mirrors_fail
  | ok t =>
    dsimp only
    split
    · exact mirrors_pure
    · exact mirrors_fail

/-- Where a name is expected, the same stands there. -/
theorem mirrors_expectIdentifier : Mirrors expectIdentifier expectIdentifier := by
  refine mirrors_next.bind fun item => ?_
  split
  · exact mirrors_pure
  · exact mirrors_fail

end Parser

open Lox.Parser

/-! ## Expressions -/

/-- The parsers of expressions read the same. -/
structure MirrorsExpressions (n : Nat) : Prop where
  expressionAt : ∀ level, Mirrors (expressionAt n level) (expressionAt n level)
  operationsAfter : ∀ level left, Mirrors (operationsAfter n level left) (operationsAfter n level left)
  accessesAfter : ∀ object, Mirrors (accessesAfter n object) (accessesAfter n object)
  expressions : ∀ listing, Mirrors (expressions n listing) (expressions n listing)
  expressionsFrom : ∀ listing before, Mirrors (expressionsFrom n listing before) (expressionsFrom n listing before)

namespace MirrorsExpressions

variable {n : Nat} (h : MirrorsExpressions n)

include h

/-- Expressions of every level do, with one step more. -/
theorem level (level : Level) : Mirrors (Lox.expressionAt (n + 1) level) (Lox.expressionAt (n + 1) level) := by
  cases level with
  | assignment =>
    rw [Lox.expressionAt, Lox.expressionAt]
    refine (h.expressionAt _).bind fun target => mirrors_takeSymbol?.bind fun taken => ?_
    cases taken with
    | none => exact mirrors_pure
    | some position =>
      refine (h.expressionAt _).bind fun value => ?_
      cases target.assignment? value with
      | some e => exact mirrors_pure
      | none => exact mirrors_report.bind fun _ => mirrors_pure
  | between level =>
    rw [Lox.expressionAt, Lox.expressionAt]
    exact (h.expressionAt _).bind fun first => h.operationsAfter level first
  | ternary =>
    rw [Lox.expressionAt, Lox.expressionAt]
    refine (h.expressionAt _).bind fun test => mirrors_ifSymbol ?_ mirrors_pure
    refine (h.expressionAt _).bind fun ifTrue => mirrors_expectSymbol.bind fun _ => ?_
    exact (h.expressionAt _).bind fun ifFalse => mirrors_pure
  | unary =>
    rw [Lox.expressionAt, Lox.expressionAt]
    refine mirrors_takeSome.bind fun sign => ?_
    cases sign with
    | none => exact h.expressionAt _
    | some op => exact (h.expressionAt _).bind fun operand => mirrors_pure
  | call =>
    rw [Lox.expressionAt, Lox.expressionAt]
    exact (h.expressionAt _).bind fun callee => h.accessesAfter callee
  -- Both take the same item, and go on as it says.
  | primary =>
    rw [Lox.expressionAt, Lox.expressionAt]
    refine mirrors_next.bind fun item => ?_
    cases item.content with
    | error e => exact mirrors_fail
    | ok t =>
      dsimp only
      cases t.expression? with
      | some e => exact mirrors_pure
      | none =>
        dsimp only
        split
        · refine mirrors_expectSymbol.bind fun _ => ?_
          exact mirrors_expectIdentifier.bind fun method => mirrors_pure
        · refine (h.expressionAt _).bind fun inner => ?_
          exact mirrors_expectSymbol.bind fun _ => mirrors_pure
        · exact (h.expressions _).bind fun items => mirrors_pure
        · split
          · exact mirrors_report.bind fun _ => (h.expressionAt _).attempt.bind fun _ => mirrors_panic
          · exact mirrors_fail

/-- So do the operators of a level. -/
theorem operations (level : InfixLevel) (left : Expr) :
    Mirrors (Lox.operationsAfter (n + 1) level left) (Lox.operationsAfter (n + 1) level left) := by
  rw [Lox.operationsAfter, Lox.operationsAfter]
  refine mirrors_takeSome.bind fun sign => ?_
  cases sign with
  | none => exact mirrors_pure
  | some op => exact (h.expressionAt _).bind fun right => h.operationsAfter _ _

/-- So do calls and accesses. -/
theorem accesses (object : Expr) :
    Mirrors (Lox.accessesAfter (n + 1) object) (Lox.accessesAfter (n + 1) object) := by
  rw [Lox.accessesAfter, Lox.accessesAfter]
  refine mirrors_ifSymbol ?_ <| mirrors_ifSymbol ?_ <| mirrors_ifSymbol ?_ mirrors_pure
  · exact (h.expressions _).bind fun arguments => h.accessesAfter _
  · exact mirrors_expectIdentifier.bind fun property => h.accessesAfter _
  · refine (h.expressionAt _).bind fun position => ?_
    exact mirrors_expectSymbol.bind fun _ => h.accessesAfter _

/-- So do lists of expressions. -/
theorem listing (listing : Listing) : Mirrors (Lox.expressions (n + 1) listing) (Lox.expressions (n + 1) listing) := by
  rw [Lox.expressions, Lox.expressions]
  exact mirrors_ifSymbol mirrors_pure (h.expressionsFrom listing 0)

/-- So do the expressions of a list. -/
theorem listingFrom (listing : Listing) (before : Nat) :
    Mirrors (Lox.expressionsFrom (n + 1) listing before) (Lox.expressionsFrom (n + 1) listing before) := by
  rw [Lox.expressionsFrom, Lox.expressionsFrom]
  refine mirrors_reportIf.bind fun _ => (h.expressionAt _).bind fun first => mirrors_ifSymbol ?_ ?_
  · exact (h.expressionsFrom _ _).bind fun others => mirrors_pure
  · exact mirrors_expectSymbol.bind fun _ => mirrors_pure

end MirrorsExpressions

/-- The parsers of expressions read the same, with any number of steps. -/
theorem mirrorsExpressions : ∀ n, MirrorsExpressions n
  | 0 => by
    constructor <;> intros <;>
      simp only [expressionAt, operationsAfter, accessesAfter, expressions, expressionsFrom] <;> exact mirrors_starve
  | n + 1 =>
    have h := mirrorsExpressions n
    ⟨h.level, h.operations, h.accesses, h.listing, h.listingFrom⟩

variable {n : Nat}

/-- So do whole expressions. -/
theorem mirrors_expression : Mirrors (expression n) (expression n) :=
  (mirrorsExpressions n).expressionAt .assignment

/-! ## Parts of statements -/

/-- So does an expression with the symbol behind it. -/
theorem mirrors_expression_symbol {α : Type} {symbol : Symbol} {fault : Fault} (result : Expr → α) :
    Mirrors
      (do
        let e ← expression n
        expectSymbol symbol fault
        pure (result e))
      (do
        let e ← expression n
        expectSymbol symbol fault
        pure (result e)) :=
  mirrors_expression.bind fun _ => mirrors_expectSymbol.bind fun _ => mirrors_pure

/-- So does what starts with a variable. -/
theorem mirrors_variableDeclaration : Mirrors (variableDeclaration n) (variableDeclaration n) := by
  refine mirrors_expectIdentifier.bind fun name => mirrors_ifSymbol ?_ ?_
  · refine mirrors_expression.bind fun value => mirrors_pure.bind fun init => ?_
    exact mirrors_expectSymbol.bind fun _ => mirrors_pure
  · exact mirrors_pure.bind fun init => mirrors_expectSymbol.bind fun _ => mirrors_pure

/-- So does what starts a `for` loop. -/
theorem mirrors_forInit : Mirrors (forInit n) (forInit n) := by
  refine mirrors_ifSymbol mirrors_pure <| mirrors_ifKeyword ?_ ?_
  · exact mirrors_variableDeclaration.bind fun declaration => mirrors_pure
  · exact (mirrors_expression_symbol Stmt.expression).bind fun start => mirrors_pure

/-- So do parameters behind others. -/
theorem mirrors_parametersFrom : ∀ n count : Nat, Mirrors (parametersFrom n count) (parametersFrom n count)
  | 0, _ => mirrors_starve
  | n + 1, count => by
    rw [parametersFrom, parametersFrom]
    refine mirrors_ifSymbol ?_ mirrors_pure
    refine mirrors_reportIf.bind fun _ => mirrors_expectIdentifier.bind fun name => ?_
    exact (mirrors_parametersFrom n _).bind fun others => mirrors_pure

/-- So do parameters. -/
theorem mirrors_parameters : Mirrors (parameters n) (parameters n) := by
  refine mirrors_ifSymbol mirrors_pure <| mirrors_expectIdentifier.bind fun first => ?_
  refine (mirrors_parametersFrom n 1).bind fun others => ?_
  exact mirrors_expectSymbol.bind fun _ => mirrors_pure

/-- So does the parent of a class. -/
theorem mirrors_parentClass : Mirrors parentClass parentClass :=
  mirrors_ifSymbol (mirrors_expectIdentifier.bind fun _ => mirrors_pure) mirrors_pure

/-- So does the end of a `break`. -/
theorem mirrors_breakStatement : Mirrors breakStatement breakStatement :=
  mirrors_expectSymbol.bind fun _ => mirrors_pure

/-! ## Statements -/

/-- The parsers of statements read the same. -/
structure MirrorsStatements (n : Nat) : Prop where
  declaration : Mirrors (declaration n) (declaration n)
  statement : Mirrors (statement n) (statement n)
  blockRest : Mirrors (blockRest n) (blockRest n)
  function : Mirrors (function n) (function n)
  methods : Mirrors (methods n) (methods n)

namespace MirrorsStatements

variable (h : MirrorsStatements n)

include h

/-- Declarations do. -/
theorem declares : Mirrors (Lox.declaration (n + 1)) (Lox.declaration (n + 1)) := by
  rw [Lox.declaration, Lox.declaration]
  refine mirrors_ifKeyword mirrors_variableDeclaration <| mirrors_ifKeyword ?_ <|
    mirrors_ifKeyword ?_ h.statement
  · exact h.function.bind fun f => mirrors_pure
  · refine mirrors_expectIdentifier.bind fun name => mirrors_parentClass.bind fun parent => ?_
    refine mirrors_expectSymbol.bind fun _ => ?_
    exact h.methods.bind fun body => mirrors_pure

/-- So do statements. -/
theorem states : Mirrors (Lox.statement (n + 1)) (Lox.statement (n + 1)) := by
  rw [Lox.statement, Lox.statement]
  refine mirrors_ifKeyword ?_ <| mirrors_ifKeyword ?_ <| mirrors_ifKeyword ?_ <|
    mirrors_ifKeyword (mirrors_expression_symbol Stmt.print) <|
    mirrors_ifKeyword (mirrors_ifSymbol mirrors_pure (mirrors_expression_symbol fun e => Stmt.returnValue (some e))) <|
    mirrors_ifKeyword mirrors_breakStatement <|
    mirrors_ifSymbol (h.blockRest.bind fun body => mirrors_pure) (mirrors_expression_symbol Stmt.expression)
  · -- `if`
    refine mirrors_expectSymbol.bind fun _ => mirrors_expression.bind fun test => ?_
    refine mirrors_expectSymbol.bind fun _ => h.statement.bind fun branch => ?_
    exact mirrors_ifKeyword (h.statement.bind fun other => mirrors_pure) mirrors_pure
  · -- `while`
    refine mirrors_expectSymbol.bind fun _ => mirrors_expression.bind fun test => ?_
    exact mirrors_expectSymbol.bind fun _ => h.statement.bind fun body => mirrors_pure
  · -- `for`
    refine mirrors_expectSymbol.bind fun _ => mirrors_forInit.bind fun start => ?_
    refine (mirrors_ifSymbol mirrors_pure (mirrors_expression_symbol some)).bind fun test => ?_
    refine (mirrors_ifSymbol mirrors_pure (mirrors_expression_symbol some)).bind fun increment => ?_
    exact h.statement.bind fun body => mirrors_pure

/-- So do blocks. -/
theorem block : Mirrors (Lox.blockRest (n + 1)) (Lox.blockRest (n + 1)) := by
  rw [Lox.blockRest, Lox.blockRest]
  refine mirrors_ifNextIs (mirrors_expectSymbol.bind fun _ => mirrors_pure) ?_
  exact h.declaration.bind fun first => h.blockRest.bind fun others => mirrors_pure

/-- So do functions. -/
theorem defines : Mirrors (Lox.function (n + 1)) (Lox.function (n + 1)) := by
  rw [Lox.function, Lox.function]
  refine mirrors_expectIdentifier.bind fun name => mirrors_expectSymbol.bind fun _ => ?_
  refine mirrors_parameters.bind fun names => mirrors_expectSymbol.bind fun _ => ?_
  exact h.blockRest.bind fun body => mirrors_pure

/-- So do methods. -/
theorem members : Mirrors (Lox.methods (n + 1)) (Lox.methods (n + 1)) := by
  rw [Lox.methods, Lox.methods]
  refine mirrors_ifSymbol mirrors_pure <| mirrors_ifAtEof (mirrors_reportIf.bind fun _ => mirrors_panic) ?_
  exact h.function.bind fun first => h.methods.bind fun others => mirrors_pure

end MirrorsStatements

/-- The parsers of statements read the same, with any number of steps. -/
theorem mirrorsStatements : ∀ n, MirrorsStatements n
  | 0 => by
    constructor <;> simp only [declaration, statement, blockRest, function, methods] <;> exact mirrors_starve
  | n + 1 =>
    have h := mirrorsStatements n
    ⟨h.declares, h.states, h.block, h.defines, h.members⟩

/-- So do programs. -/
theorem mirrors_program : ∀ n, Mirrors (program n) (program n)
  | 0 => mirrors_starve
  | n + 1 => by
    rw [program, program]
    refine mirrors_ifAtEof mirrors_pure ?_
    refine (mirrorsStatements n).declaration.attempt.bind fun first => ?_
    cases first with
    | some first => exact (mirrors_program n).bind fun others => mirrors_pure
    | none => exact mirrors_skipPastSemicolon.bind fun _ => mirrors_program n

/-- What a text is read as is what its token stream is read as. -/
theorem Program.parse_eq (text : String) :
    Program.parse text = (program (enoughSteps (scanItems text).length) (TokenStream.ofText text)).verdict :=
  (mirrors_program _ _ _ (Lookahead.shows_ofText text)).verdict_eq

end Lox
