import Lox.Proofs.Recovery.Resumption
import Lox.Interpreter.Basic

/-!
# What is reported, and where

Whoever gives up on a construct has reported something, and whatever is reported is reported at an item of the stream,
the end mark included. `Accounts` is what is shown of every parser, with any number of steps; so a panic may be caught
where declarations are read one after the other, and none of them is lost without a word (`parse_accounts`).
-/

namespace Lox

open Lox.Parser Lox.TokenStream

/-- What is left of the stream stands at the places, the end mark included. -/
structure TokenStream.Within (places : Position → Prop) (s : TokenStream) : Prop where
  ending : places s.ending
  upcoming : ∀ item ∈ s.upcoming, places item.position

/-- What is left and what is reported stand at the places, and a panic comes with a report. -/
inductive ParsedOn.IsAccounted {α : Type} (places : Position → Prop) : Parsed α → Prop where
  | ok {a : α} {rest : TokenStream} {reports : List Diagnostic} (hrest : rest.Within places)
      (hreports : ∀ d ∈ reports, places d.position) : IsAccounted places (ok a rest reports)
  | panic {rest : TokenStream} {reports : List Diagnostic} (hrest : rest.Within places)
      (hreports : ∀ d ∈ reports, places d.position) (hne : reports ≠ []) : IsAccounted places (panic rest reports)
  | starved : IsAccounted places starved

/-- From a stream that stands at the places, the parser reports at those places only, and something if it panics. -/
def Parser.Accounts {α : Type} (places : Position → Prop) (p : Parser α) : Prop :=
  ∀ s : TokenStream, s.Within places → (p s).IsAccounted places

variable {α β : Type} {places : Position → Prop} {n : Nat}

/-! ## Streams -/

namespace TokenStream.Within

variable {s : TokenStream}

/-- The next item stands at one of the places. -/
theorem peek (h : s.Within places) : places s.peek.position := by
  obtain ⟨upcoming, ending⟩ := s
  cases upcoming with
  | nil => exact h.ending
  | cons item items => exact h.upcoming item List.mem_cons_self

/-- So does what is left of a stream when items are dropped. -/
theorem of_subset (h : s.Within places) {items : List Item} (hitems : items ⊆ s.upcoming) :
    ({ s with upcoming := items } : TokenStream).Within places :=
  ⟨h.ending, fun item hitem => h.upcoming item (hitems hitem)⟩

/-- So does what follows the next item. -/
theorem advance (h : s.Within places) : s.advance.Within places :=
  h.of_subset (List.tail_sublist _).subset

/-- So does what follows the next item if it is consumed for what is got from it. -/
theorem nextIfSome (h : s.Within places) (f : Token → Option α) : (s.nextIfSome f).2.Within places := by
  unfold TokenStream.nextIfSome
  split
  · exact h.advance
  · exact h

/-- So does what follows the next item if it is consumed for a property. -/
theorem nextIf (h : s.Within places) (p : Token → Bool) : (s.nextIf p).2.Within places := by
  unfold TokenStream.nextIf
  split
  · exact h.advance
  · exact h

end TokenStream.Within

/-- Nothing is reported at a wrong place where nothing is reported. -/
theorem places_nil : ∀ d ∈ ([] : List Diagnostic), places d.position :=
  nofun

/-- A report at one of the places. -/
theorem places_singleton {position : Position} {fault : Fault} (h : places position) :
    ∀ d ∈ [(⟨position, fault⟩ : Diagnostic)], places d.position := by
  intro d hd
  obtain rfl := List.mem_singleton.1 hd
  exact h

/-- What was reported before is accounted for with the rest. -/
theorem ParsedOn.IsAccounted.after {r : Parsed α} {earlier : List Diagnostic} (h : r.IsAccounted places)
    (hearlier : ∀ d ∈ earlier, places d.position) : (r.after earlier).IsAccounted places := by
  cases h with
  | ok hrest hreports => exact .ok hrest (List.forall_mem_append.2 ⟨hearlier, hreports⟩)
  | panic hrest hreports hne =>
    exact .panic hrest (List.forall_mem_append.2 ⟨hearlier, hreports⟩) (List.append_ne_nil_of_right_ne_nil _ hne)
  | starved => exact .starved

/-! ## Parsers -/

namespace Parser

variable {p q : Parser α} {f : α → Parser β} {position : Position} {fault : Fault} {symbol : Symbol}
  {keyword : Keyword}

/-- Nothing is reported of what is known already. -/
theorem accounts_pure {a : α} : Accounts places (pure a : Parser α) :=
  fun _ hs => .ok hs places_nil

/-- One parser and then another account for what they report. -/
theorem Accounts.bind (hp : Accounts places p) (hf : ∀ a, Accounts places (f a)) : Accounts places (p >>= f) := by
  intro s hs
  have hr := hp s hs
  show (Parser.bind p f s).IsAccounted places
  rw [Parser.bind]
  cases h : p s with
  | ok a rest reports =>
    rw [h] at hr
    cases hr with
    | ok hrest hreports => exact (hf a rest hrest).after hreports
  | panic rest reports =>
    rw [h] at hr
    cases hr with
    | panic hrest hreports hne => exact .panic hrest hreports hne
  | starved => exact .starved

/-- Who is out of steps reports nothing. -/
theorem accounts_starve : Accounts places (starve : Parser α) :=
  fun _ _ => .starved

/-- A report at one of the places. -/
theorem accounts_report (h : places position) : Accounts places (report position fault) :=
  fun _ hs => .ok hs (places_singleton h)

/-- Giving up with a report at one of the places. -/
theorem accounts_fail (h : places position) : Accounts places (fail position fault : Parser α) :=
  fun _ hs => .panic hs (places_singleton h) (List.cons_ne_nil _ _)

/-- A report on a condition is a report at the next item. -/
theorem accounts_reportIf {condition : Bool} : Accounts places (reportIf condition fault) := by
  intro s hs
  cases condition with
  | true => exact .ok hs (places_singleton hs.peek)
  | false => exact .ok hs places_nil

/-- Giving up with a report at the next item. -/
theorem accounts_report_panic : Accounts places (do reportIf true fault; panic : Parser α) :=
  fun _ hs => .panic hs (places_singleton hs.peek) (List.cons_ne_nil _ _)

/-- A panic that ends at an attempt has been reported. -/
theorem Accounts.attempt (hp : Accounts places p) : Accounts places (attempt p) := by
  intro s hs
  have hr := hp s hs
  rw [Parser.attempt]
  cases h : p s with
  | ok a rest reports =>
    rw [h] at hr
    cases hr with
    | ok hrest hreports => exact .ok hrest hreports
  | panic rest reports =>
    rw [h] at hr
    cases hr with
    | panic hrest hreports hne => exact .ok hrest hreports
  | starved => exact .starved

/-- Giving up behind a report, with something read in between for what else there is to report. -/
theorem Accounts.report_panic (hp : Accounts places p) (h : places position) :
    Accounts places (do
      report position fault
      let _ ← p
      panic : Parser β) := by
  intro s hs
  have hr := hp s hs
  show ((Parser.bind p (fun _ => panic) s).after [⟨position, fault⟩]).IsAccounted places
  rw [Parser.bind]
  cases hps : p s with
  | ok a rest reports =>
    rw [hps] at hr
    cases hr with
    | ok hrest hreports =>
      have hall : ∀ d ∈ reports ++ [], places d.position := (List.append_nil reports).symm ▸ hreports
      exact .panic hrest (List.forall_mem_append.2 ⟨places_singleton h, hall⟩) (List.cons_ne_nil _ _)
  | panic rest reports =>
    rw [hps] at hr
    cases hr with
    | panic hrest hreports hne =>
      exact .panic hrest (List.forall_mem_append.2 ⟨places_singleton h, hreports⟩) (List.cons_ne_nil _ _)
  | starved => exact .starved

/-- What follows the next item knows that it stands at one of the places. -/
theorem accounts_bind_next {f : Item → Parser β} (hf : ∀ item : Item, places item.position → Accounts places (f item)) :
    Accounts places (next >>= f) :=
  fun s hs => (hf s.peek hs.peek s.advance hs.advance).after places_nil

/-- What follows a symbol knows that it stands at one of the places. -/
theorem accounts_bind_takeSymbol? {f : Option Position → Parser β}
    (hsome : ∀ position, places position → Accounts places (f (some position))) (hnone : Accounts places (f none)) :
    Accounts places (takeSymbol? symbol >>= f) := by
  intro s hs
  by_cases h : s.Starts (.symbol symbol)
  · rw [bind_of_reads (takeSymbol?_of_starts h)]
    exact hsome _ hs.peek _ hs.advance
  · rw [bind_of_reads (takeSymbol?_of_not_starts h)]
    exact hnone s hs

/-- Consuming a token for what is got from it reports nothing. -/
theorem accounts_takeSome {g : Token → Option α} : Accounts places (takeSome g) :=
  fun _ hs => .ok (hs.nextIfSome g) places_nil

/-- A choice by a symbol. -/
theorem accounts_ifSymbol (hp : Accounts places p) (hq : Accounts places q) :
    Accounts places (do if ← takeSymbol symbol then p else q) := by
  have htaken : Accounts places (takeSymbol symbol) := fun _ hs => .ok (hs.nextIf _) places_nil
  refine htaken.bind fun taken => ?_
  cases taken with
  | true => exact hp
  | false => exact hq

/-- A choice by a keyword. -/
theorem accounts_ifKeyword (hp : Accounts places p) (hq : Accounts places q) :
    Accounts places (do if ← takeKeyword keyword then p else q) := by
  have htaken : Accounts places (takeKeyword keyword) := fun _ hs => .ok (hs.nextIf _) places_nil
  refine htaken.bind fun taken => ?_
  cases taken with
  | true => exact hp
  | false => exact hq

/-- A choice by a look at the next item. -/
theorem accounts_ifNextIs {r : Token → Bool} (hp : Accounts places p) (hq : Accounts places q) :
    Accounts places (do if ← nextIs r then p else q) := by
  have hlook : Accounts places (nextIs r) := fun _ hs => .ok hs places_nil
  refine hlook.bind fun found => ?_
  cases found with
  | true => exact hp
  | false => exact hq

/-- Skipping to the next semicolon reports nothing. -/
theorem accounts_skipPastSemicolon : Accounts places skipPastSemicolon := by
  intro s hs
  have hskipped : s.behindSemicolon.Within places :=
    hs.of_subset ((List.tail_sublist _).trans (List.dropWhile_sublist _)).subset
  exact .ok hskipped places_nil

/-- Where a symbol is expected, what stands there instead is reported. -/
theorem accounts_expectSymbol : Accounts places (expectSymbol symbol fault) := by
  refine accounts_bind_next fun item hitem => ?_
  cases item.content with
  | error e => exact accounts_fail hitem
  | ok t =>
    dsimp only
    split
    · exact accounts_pure
    · exact accounts_fail hitem

/-- Where a name is expected, what stands there instead is reported. -/
theorem accounts_expectIdentifier : Accounts places expectIdentifier := by
  refine accounts_bind_next fun item hitem => ?_
  split
  · exact accounts_pure
  · exact accounts_fail hitem

end Parser

/-! ## Expressions -/

/-- The parsers of expressions account for what they report. -/
structure AccountsExpressions (places : Position → Prop) (n : Nat) : Prop where
  expressionAt : ∀ level, Accounts places (expressionAt n level)
  operationsAfter : ∀ level left, Accounts places (operationsAfter n level left)
  accessesAfter : ∀ object, Accounts places (accessesAfter n object)
  expressions : ∀ listing, Accounts places (expressions n listing)
  expressionsFrom : ∀ listing before, Accounts places (expressionsFrom n listing before)

namespace AccountsExpressions

variable (h : AccountsExpressions places n)

include h

/-- Assignments do. A target that is none is reported where the sign stands. -/
theorem assignment : Accounts places (Lox.expressionAt (n + 1) .assignment) := by
  rw [Lox.expressionAt]
  refine (h.expressionAt _).bind fun target => ?_
  refine accounts_bind_takeSymbol? (fun position hposition => ?_) accounts_pure
  refine (h.expressionAt _).bind fun value => ?_
  cases target.assignment? value with
  | some e => exact accounts_pure
  | none => exact (accounts_report hposition).bind fun _ => accounts_pure

/-- So does what is read between operators. -/
theorem between (level : InfixLevel) : Accounts places (Lox.expressionAt (n + 1) (.between level)) := by
  rw [Lox.expressionAt]
  exact (h.expressionAt _).bind fun first => h.operationsAfter level first

/-- So do ternaries. -/
theorem ternary : Accounts places (Lox.expressionAt (n + 1) .ternary) := by
  rw [Lox.expressionAt]
  refine (h.expressionAt _).bind fun test => accounts_ifSymbol ?_ accounts_pure
  refine (h.expressionAt _).bind fun ifTrue => accounts_expectSymbol.bind fun _ => ?_
  exact (h.expressionAt _).bind fun ifFalse => accounts_pure

/-- So does what is read behind prefix signs. -/
theorem unary : Accounts places (Lox.expressionAt (n + 1) .unary) := by
  rw [Lox.expressionAt]
  refine accounts_takeSome.bind fun sign => ?_
  cases sign with
  | none => exact h.expressionAt _
  | some op => exact (h.expressionAt _).bind fun operand => accounts_pure

/-- So do chains of calls and accesses. -/
theorem call : Accounts places (Lox.expressionAt (n + 1) .call) := by
  rw [Lox.expressionAt]
  exact (h.expressionAt _).bind fun callee => h.accessesAfter callee

/-- So does what stands on its own. An operator that stands there is reported before its right operand is tried. -/
theorem primary : Accounts places (Lox.expressionAt (n + 1) .primary) := by
  rw [Lox.expressionAt]
  refine accounts_bind_next fun item hitem => ?_
  cases item.content with
  | error e => exact accounts_fail hitem
  | ok t =>
    dsimp only
    cases t.expression? with
    | some e => exact accounts_pure
    | none =>
      dsimp only
      split
      · refine accounts_expectSymbol.bind fun _ => ?_
        exact accounts_expectIdentifier.bind fun method => accounts_pure
      · refine (h.expressionAt _).bind fun inner => ?_
        exact accounts_expectSymbol.bind fun _ => accounts_pure
      · exact (h.expressions _).bind fun items => accounts_pure
      · split
        · exact (h.expressionAt _).attempt.report_panic hitem
        · exact accounts_fail hitem

/-- So do the operators of a level. -/
theorem operations (level : InfixLevel) (left : Expr) :
    Accounts places (Lox.operationsAfter (n + 1) level left) := by
  rw [Lox.operationsAfter]
  refine accounts_takeSome.bind fun sign => ?_
  cases sign with
  | none => exact accounts_pure
  | some op => exact (h.expressionAt _).bind fun right => h.operationsAfter _ _

/-- So do calls and accesses. -/
theorem accesses (object : Expr) : Accounts places (Lox.accessesAfter (n + 1) object) := by
  rw [Lox.accessesAfter]
  refine accounts_ifSymbol ?_ <| accounts_ifSymbol ?_ <| accounts_ifSymbol ?_ accounts_pure
  · exact (h.expressions _).bind fun arguments => h.accessesAfter _
  · exact accounts_expectIdentifier.bind fun property => h.accessesAfter _
  · refine (h.expressionAt _).bind fun position => ?_
    exact accounts_expectSymbol.bind fun _ => h.accessesAfter _

/-- So do lists of expressions. -/
theorem listing (listing : Listing) : Accounts places (Lox.expressions (n + 1) listing) := by
  rw [Lox.expressions]
  exact accounts_ifSymbol accounts_pure (h.expressionsFrom listing 0)

/-- So do the expressions of a list. One that is too many is reported where it starts. -/
theorem listingFrom (listing : Listing) (before : Nat) :
    Accounts places (Lox.expressionsFrom (n + 1) listing before) := by
  rw [Lox.expressionsFrom]
  refine accounts_reportIf.bind fun _ => (h.expressionAt _).bind fun first => accounts_ifSymbol ?_ ?_
  · exact (h.expressionsFrom _ _).bind fun others => accounts_pure
  · exact accounts_expectSymbol.bind fun _ => accounts_pure

end AccountsExpressions

/-- The parsers of expressions account for what they report. -/
theorem accountsExpressions (places : Position → Prop) : ∀ n, AccountsExpressions places n
  | 0 => by
    constructor <;> intros <;>
      simp only [expressionAt, operationsAfter, accessesAfter, expressions, expressionsFrom] <;> exact accounts_starve
  | n + 1 => by
    have h := accountsExpressions places n
    refine ⟨fun level => ?_, h.operations, h.accesses, h.listing, h.listingFrom⟩
    cases level with
    | assignment => exact h.assignment
    | between level => exact h.between level
    | ternary => exact h.ternary
    | unary => exact h.unary
    | call => exact h.call
    | primary => exact h.primary

/-- So do whole expressions. -/
theorem accounts_expression : Accounts places (expression n) :=
  (accountsExpressions places n).expressionAt .assignment

/-! ## Parts of statements -/

/-- So does an expression with the symbol behind it. -/
theorem accounts_expression_symbol {symbol : Symbol} {fault : Fault} (result : Expr → α) :
    Accounts places (do
      let e ← expression n
      expectSymbol symbol fault
      pure (result e)) :=
  accounts_expression.bind fun _ => accounts_expectSymbol.bind fun _ => accounts_pure

/-- So does an expression that may be missing, with the symbol behind it. -/
theorem accounts_optional {symbol : Symbol} {fault : Fault} (result : Option Expr → α) :
    Accounts places (do
      if ← takeSymbol symbol then pure (result none)
      else
        let e ← expression n
        expectSymbol symbol fault
        pure (result (some e))) :=
  accounts_ifSymbol accounts_pure (accounts_expression_symbol fun e => result (some e))

/-- So do variable declarations. -/
theorem accounts_variableDeclaration : Accounts places (variableDeclaration n) := by
  refine accounts_expectIdentifier.bind fun name => accounts_ifSymbol ?_ ?_
  · refine accounts_expression.bind fun value => accounts_pure.bind fun init => ?_
    exact accounts_expectSymbol.bind fun _ => accounts_pure
  · exact accounts_pure.bind fun init => accounts_expectSymbol.bind fun _ => accounts_pure

/-- So does what starts a `for` loop. -/
theorem accounts_forInit : Accounts places (forInit n) := by
  refine accounts_ifSymbol accounts_pure <| accounts_ifKeyword ?_ ?_
  · exact accounts_variableDeclaration.bind fun declaration => accounts_pure
  · exact (accounts_expression_symbol Stmt.expression).bind fun start => accounts_pure

/-- So do parameters behind others. One that is too many is reported where it stands. -/
theorem accounts_parametersFrom : ∀ (n count : Nat), Accounts places (parametersFrom n count)
  | 0, _ => accounts_starve
  | n + 1, count => by
    rw [parametersFrom]
    refine accounts_ifSymbol ?_ accounts_pure
    refine accounts_reportIf.bind fun _ => accounts_expectIdentifier.bind fun name => ?_
    exact (accounts_parametersFrom n _).bind fun others => accounts_pure

/-- So do parameters. -/
theorem accounts_parameters : Accounts places (parameters n) := by
  refine accounts_ifSymbol accounts_pure <| accounts_expectIdentifier.bind fun first => ?_
  refine (accounts_parametersFrom n 1).bind fun others => ?_
  exact accounts_expectSymbol.bind fun _ => accounts_pure

/-- So does the parent of a class. -/
theorem accounts_parentClass : Accounts places parentClass :=
  accounts_ifSymbol (accounts_expectIdentifier.bind fun _ => accounts_pure) accounts_pure

/-- So does the end of a `break`. -/
theorem accounts_breakStatement : Accounts places breakStatement :=
  accounts_expectSymbol.bind fun _ => accounts_pure

/-! ## Statements -/

/-- The parsers of statements account for what they report. -/
structure AccountsStatements (places : Position → Prop) (n : Nat) : Prop where
  declaration : Accounts places (declaration n)
  statement : Accounts places (statement n)
  blockRest : Accounts places (blockRest n)
  function : Accounts places (function n)
  methods : Accounts places (methods n)

namespace AccountsStatements

variable (h : AccountsStatements places n)

include h

/-- Declarations do. -/
theorem declares : Accounts places (Lox.declaration (n + 1)) := by
  rw [Lox.declaration]
  refine accounts_ifKeyword accounts_variableDeclaration <| accounts_ifKeyword ?_ <|
    accounts_ifKeyword ?_ h.statement
  · exact h.function.bind fun f => accounts_pure
  · refine accounts_expectIdentifier.bind fun name => accounts_parentClass.bind fun parent => ?_
    refine accounts_expectSymbol.bind fun _ => ?_
    exact h.methods.bind fun body => accounts_pure

/-- So do statements. -/
theorem states : Accounts places (Lox.statement (n + 1)) := by
  rw [Lox.statement]
  refine accounts_ifKeyword ?_ <| accounts_ifKeyword ?_ <| accounts_ifKeyword ?_ <|
    accounts_ifKeyword (accounts_expression_symbol Stmt.print) <|
    accounts_ifKeyword (accounts_optional Stmt.returnValue) <| accounts_ifKeyword accounts_breakStatement <|
    accounts_ifSymbol (h.blockRest.bind fun body => accounts_pure) (accounts_expression_symbol Stmt.expression)
  · -- `if`
    refine accounts_expectSymbol.bind fun _ => accounts_expression.bind fun test => ?_
    refine accounts_expectSymbol.bind fun _ => h.statement.bind fun branch => ?_
    exact accounts_ifKeyword (h.statement.bind fun other => accounts_pure) accounts_pure
  · -- `while`
    refine accounts_expectSymbol.bind fun _ => accounts_expression.bind fun test => ?_
    exact accounts_expectSymbol.bind fun _ => h.statement.bind fun body => accounts_pure
  · -- `for`
    refine accounts_expectSymbol.bind fun _ => accounts_forInit.bind fun start => ?_
    refine (accounts_optional id).bind fun test => (accounts_optional id).bind fun increment => ?_
    exact h.statement.bind fun body => accounts_pure

/-- So do blocks. -/
theorem block : Accounts places (Lox.blockRest (n + 1)) := by
  rw [Lox.blockRest]
  refine accounts_ifNextIs (accounts_expectSymbol.bind fun _ => accounts_pure) ?_
  exact h.declaration.bind fun first => h.blockRest.bind fun others => accounts_pure

/-- So do functions. -/
theorem defines : Accounts places (Lox.function (n + 1)) := by
  rw [Lox.function]
  refine accounts_expectIdentifier.bind fun name => accounts_expectSymbol.bind fun _ => ?_
  refine accounts_parameters.bind fun names => accounts_expectSymbol.bind fun _ => ?_
  exact h.blockRest.bind fun body => accounts_pure

/-- So do methods. Where the text ends within them, this is reported. -/
theorem members : Accounts places (Lox.methods (n + 1)) := by
  rw [Lox.methods]
  refine accounts_ifSymbol accounts_pure <| accounts_ifNextIs accounts_report_panic ?_
  exact h.function.bind fun first => h.methods.bind fun others => accounts_pure

end AccountsStatements

/-- The parsers of statements account for what they report. -/
theorem accountsStatements (places : Position → Prop) : ∀ n, AccountsStatements places n
  | 0 => by
    constructor <;> simp only [declaration, statement, blockRest, function, methods] <;> exact accounts_starve
  | n + 1 =>
    have h := accountsStatements places n
    ⟨h.declares, h.states, h.block, h.defines, h.members⟩

/-- So do programs. A panic ends here, and it has been reported. -/
theorem accounts_program (places : Position → Prop) : ∀ n, Accounts places (program n)
  | 0 => accounts_starve
  | n + 1 => by
    rw [program]
    refine accounts_ifNextIs accounts_pure ?_
    refine (accountsStatements places n).declaration.attempt.bind fun first => ?_
    cases first with
    | some first => exact (accounts_program places n).bind fun others => accounts_pure
    | none => exact accounts_skipPastSemicolon.bind fun _ => accounts_program places n

/-- The parsers from which a program is read, with any number of steps. -/
inductive Grammar.IsReader : {α : Type} → Parser α → Prop where
  | expectSymbol (symbol : Symbol) (fault : Fault) : IsReader (expectSymbol symbol fault)
  | expectIdentifier : IsReader expectIdentifier
  | expressionAt (n : Nat) (level : Level) : IsReader (expressionAt n level)
  | operationsAfter (n : Nat) (level : InfixLevel) (left : Expr) : IsReader (operationsAfter n level left)
  | accessesAfter (n : Nat) (object : Expr) : IsReader (accessesAfter n object)
  | expressions (n : Nat) (listing : Listing) : IsReader (expressions n listing)
  | expressionsFrom (n : Nat) (listing : Listing) (count : Nat) : IsReader (expressionsFrom n listing count)
  | parametersFrom (n count : Nat) : IsReader (parametersFrom n count)
  | parameters (n : Nat) : IsReader (parameters n)
  | variableDeclaration (n : Nat) : IsReader (variableDeclaration n)
  | expressionStatement (n : Nat) : IsReader (expressionStatement n)
  | parentClass : IsReader parentClass
  | forInit (n : Nat) : IsReader (forInit n)
  | forTest (n : Nat) : IsReader (forTest n)
  | forIncrement (n : Nat) : IsReader (forIncrement n)
  | printStatement (n : Nat) : IsReader (printStatement n)
  | returnStatement (n : Nat) : IsReader (returnStatement n)
  | breakStatement : IsReader breakStatement
  | declaration (n : Nat) : IsReader (declaration n)
  | statement (n : Nat) : IsReader (statement n)
  | blockRest (n : Nat) : IsReader (blockRest n)
  | function (n : Nat) : IsReader (function n)
  | methods (n : Nat) : IsReader (methods n)
  | program (n : Nat) : IsReader (program n)

/-- All of them account for what they report. -/
theorem Grammar.IsReader.accounts {p : Parser α} (h : IsReader p) (places : Position → Prop) : Accounts places p := by
  cases h with
  | expectSymbol symbol fault => exact accounts_expectSymbol
  | expectIdentifier => exact accounts_expectIdentifier
  | expressionAt n level => exact (accountsExpressions places n).expressionAt level
  | operationsAfter n level left => exact (accountsExpressions places n).operationsAfter level left
  | accessesAfter n object => exact (accountsExpressions places n).accessesAfter object
  | expressions n listing => exact (accountsExpressions places n).expressions listing
  | expressionsFrom n listing count => exact (accountsExpressions places n).expressionsFrom listing count
  | parametersFrom n count => exact accounts_parametersFrom n count
  | parameters n => exact accounts_parameters
  | variableDeclaration n => exact accounts_variableDeclaration
  | expressionStatement n => exact accounts_expression_symbol Stmt.expression
  | parentClass => exact accounts_parentClass
  | forInit n => exact accounts_forInit
  | forTest n => exact accounts_optional id
  | forIncrement n => exact accounts_optional id
  | printStatement n => exact accounts_expression_symbol Stmt.print
  | returnStatement n => exact accounts_optional Stmt.returnValue
  | breakStatement => exact accounts_breakStatement
  | declaration n => exact (accountsStatements places n).declaration
  | statement n => exact (accountsStatements places n).statement
  | blockRest n => exact (accountsStatements places n).blockRest
  | function n => exact (accountsStatements places n).function
  | methods n => exact (accountsStatements places n).methods
  | program n => exact accounts_program places n

/-! ## Texts -/

/-- A result that accounts for what is reported has reports if it is a panic. -/
theorem ParsedOn.IsAccounted.ne_nil {rest : TokenStream} {reports : List Diagnostic}
    (h : (ParsedOn.panic rest reports : Parsed α).IsAccounted places) : reports ≠ [] := by
  cases h with
  | panic _ _ hne => exact hne

/-- It reports at the places. -/
theorem ParsedOn.IsAccounted.reports {r : Parsed α} (h : r.IsAccounted places) :
    ∀ d ∈ r.reports, places d.position := by
  cases h with
  | ok _ hreports => exact hreports
  | panic _ hreports _ => exact hreports
  | starved => exact nofun

/-- The stream of a text stands at the places of its items. -/
theorem within_ofText (text : String) :
    (ofText text).Within fun position => ∃ item ∈ scan text, item.position = position :=
  ⟨⟨Item.eof (endPosition text), mem_scan_iff.2 (.inr rfl), rfl⟩,
    fun item hitem => ⟨item, mem_scan_iff.2 (.inl hitem), rfl⟩⟩

/-- A text is a program just when nothing is reported of it. -/
theorem exists_parse_eq_ok_iff {text : String} : (∃ p, Program.parse text = .ok p) ↔ (ofText text).faults = [] := by
  constructor
  · rintro ⟨p, hp⟩
    by_contra hne
    exact nomatch hp.symm.trans (parse_eq_error_iff.2 ⟨rfl, hne⟩)
  · intro hnil
    cases hp : Program.parse text with
    | ok p => exact ⟨p, rfl⟩
    | error ds =>
      obtain ⟨hfaults, hne⟩ := parse_eq_error_iff.1 hp
      exact absurd (hfaults.symm.trans hnil) hne

/-- What is reported of a text. It is a program just when nothing is reported; otherwise all that is reported is told.
No parser gives up in silence, wherever it starts. A text with an item that is no token is no program. Whatever is
reported is reported at an item of the text, the end mark included. And a text that is no program is not run: the
interpreter stays as it is. -/
theorem parse_accounts (text : String) :
    ((∃ p, Program.parse text = .ok p) ↔ (ofText text).faults = []) ∧
    (∀ ds, Program.parse text = .error ds → ds = (ofText text).faults) ∧
    (∀ {α : Type} (p : Parser α), Grammar.IsReader p →
      ∀ s rest reports, p s = .panic rest reports → reports ≠ []) ∧
    ((∃ item ∈ scan text, ∃ e, item.content = .error e) → ∃ ds, Program.parse text = .error ds) ∧
    (∀ d ∈ (ofText text).faults, ∃ item ∈ scan text, item.position = d.position) ∧
    (∀ ds, Program.parse text = .error ds →
      ∀ steps (i : Interpreter), i.run steps text = some (.error (.parse ds), i)) := by
  refine ⟨exists_parse_eq_ok_iff, fun ds h => (parse_eq_error_iff.1 h).1.symm, ?_, ?_, ?_, ?_⟩
  · intro α p hp s rest reports hpanic
    have haccounts := hp.accounts (fun _ => True) s ⟨trivial, fun _ _ => trivial⟩
    rw [hpanic] at haccounts
    exact haccounts.ne_nil
  · rintro ⟨item, hitem, e, herror⟩
    cases hp : Program.parse text with
    | ok p =>
      obtain ⟨htokens, -⟩ := Grammar.derivation_of_parse hp
      obtain ⟨t, ht⟩ := htokens item hitem
      exact nomatch herror.symm.trans ht
    | error ds => exact ⟨ds, rfl⟩
  · exact (accounts_program _ _ _ (within_ofText text)).reports
  · intro ds hp steps i
    rw [Interpreter.run, hp]

/-- A text with an item that is no token, and nothing else. -/
def strayCharacter : String := "@"

/-- It is no program; what is reported is the item, and nothing is run. -/
theorem parse_accounts_strayCharacter :
    (ofText strayCharacter).faults = [⟨⟨0, 0⟩, .scan .unrecognizedToken⟩] ∧
      (∃ rest reports, declaration 20 (ofText strayCharacter) = .panic rest reports ∧ reports ≠ []) ∧
      (∃ ds, Program.parse strayCharacter = .error ds) ∧
      (∃ item ∈ scan strayCharacter, item.position = ⟨0, 0⟩) ∧
      ∀ steps (i : Interpreter),
        i.run steps strayCharacter = some (.error (.parse [⟨⟨0, 0⟩, .scan .unrecognizedToken⟩]), i) := by
  have hfaults : (ofText strayCharacter).faults = [⟨⟨0, 0⟩, .scan .unrecognizedToken⟩] := rfl
  have hpanic : declaration 20 (ofText strayCharacter) =
      .panic ⟨[], ⟨0, 1⟩⟩ [⟨⟨0, 0⟩, .scan .unrecognizedToken⟩] := rfl
  obtain ⟨-, -, hpanics, herror, hplaces, hrun⟩ := parse_accounts strayCharacter
  refine ⟨hfaults, ⟨_, _, hpanic, hpanics _ (.declaration 20) _ _ _ hpanic⟩,
    herror ⟨_, mem_scan_iff.2 (.inl List.mem_cons_self), _, rfl⟩, ?_, ?_⟩
  · exact hplaces ⟨⟨0, 0⟩, .scan .unrecognizedToken⟩ (by rw [hfaults]; exact List.mem_cons_self)
  · exact hrun _ ((Program.parse_eq _).trans rfl)

end Lox
