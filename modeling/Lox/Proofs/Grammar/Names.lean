import Lox.Proofs.Grammar.Parse
import Lox.Heap.Basic

/-!
# Names that code binds

Which names code may bind or assign (`BindsOnly`). Code that is read from a text binds what the text has as names
(`bindsOnly_of_parse`), and a reserved word is never a name; so no program defines `this` or `super`.
-/

namespace Lox

variable {p : String → Prop}

/-! ## Code -/

mutual

/-- Every name that an expression assigns has a property. -/
def Expr.BindsOnly (p : String → Prop) : Expr → Prop
  | literal _ => True
  | group inner => inner.BindsOnly p
  | unary _ operand => operand.BindsOnly p
  | binary left _ right => left.BindsOnly p ∧ right.BindsOnly p
  | logical left _ right => left.BindsOnly p ∧ right.BindsOnly p
  | ternary test ifTrue ifFalse => test.BindsOnly p ∧ ifTrue.BindsOnly p ∧ ifFalse.BindsOnly p
  | list items => Expr.AllBindOnly p items
  | «variable» _ => True
  | this => True
  | super _ => True
  | assign target value => p target ∧ value.BindsOnly p
  | call callee arguments => callee.BindsOnly p ∧ Expr.AllBindOnly p arguments
  | get object _ => object.BindsOnly p
  | set object _ value => object.BindsOnly p ∧ value.BindsOnly p
  | index object position => object.BindsOnly p ∧ position.BindsOnly p
  | setIndex object position value => object.BindsOnly p ∧ position.BindsOnly p ∧ value.BindsOnly p

/-- Every name that some expressions assign has a property. -/
def Expr.AllBindOnly (p : String → Prop) : List Expr → Prop
  | [] => True
  | e :: others => e.BindsOnly p ∧ Expr.AllBindOnly p others

end

/-- Every name that an expression, if there is one, assigns has a property. -/
def Expr.OptionBindsOnly (p : String → Prop) : Option Expr → Prop
  | none => True
  | some e => e.BindsOnly p

mutual

/-- Every name that a statement binds or assigns has a property. -/
def Stmt.BindsOnly (p : String → Prop) : Stmt → Prop
  | .varDecl name init => p name ∧ Expr.OptionBindsOnly p init
  | .funDecl d => d.BindsOnly p
  | .classDecl name _ methods => p name ∧ FunDecl.AllBindOnly p methods
  | .expression value => value.BindsOnly p
  | .print value => value.BindsOnly p
  | .block body => Stmt.AllBindOnly p body
  | .conditional test thenBranch none => test.BindsOnly p ∧ thenBranch.BindsOnly p
  | .conditional test thenBranch (some other) => test.BindsOnly p ∧ thenBranch.BindsOnly p ∧ other.BindsOnly p
  | .loop test body => test.BindsOnly p ∧ body.BindsOnly p
  | .breakLoop => True
  | .returnValue value => Expr.OptionBindsOnly p value

/-- Every name that some statements bind or assign has a property. -/
def Stmt.AllBindOnly (p : String → Prop) : List Stmt → Prop
  | [] => True
  | st :: others => st.BindsOnly p ∧ Stmt.AllBindOnly p others

/-- The name of a function, its parameters, and every name that its body binds or assigns have a property. -/
def FunDecl.BindsOnly (p : String → Prop) : FunDecl → Prop
  | .mk name parameters body => p name ∧ (∀ x ∈ parameters, p x) ∧ Stmt.AllBindOnly p body

/-- Every name that some functions bind or assign has a property. -/
def FunDecl.AllBindOnly (p : String → Prop) : List FunDecl → Prop
  | [] => True
  | d :: others => d.BindsOnly p ∧ FunDecl.AllBindOnly p others

end

/-- A statement binds only what all statements together do. -/
theorem Stmt.bindsOnly_of_mem {st : Stmt} : ∀ {body : List Stmt}, Stmt.AllBindOnly p body → st ∈ body → st.BindsOnly p
  | [], _, hst => nomatch hst
  | _ :: _, ⟨hfirst, hothers⟩, hst => by
    rcases List.mem_cons.1 hst with rfl | hst
    · exact hfirst
    · exact Stmt.bindsOnly_of_mem hothers hst

/-- A function binds only what all functions together do. -/
theorem FunDecl.bindsOnly_of_mem {d : FunDecl} :
    ∀ {ds : List FunDecl}, FunDecl.AllBindOnly p ds → d ∈ ds → d.BindsOnly p
  | [], _, hd => nomatch hd
  | _ :: _, ⟨hfirst, hothers⟩, hd => by
    rcases List.mem_cons.1 hd with rfl | hd
    · exact hfirst
    · exact FunDecl.bindsOnly_of_mem hothers hd

namespace Grammar

/-! ## Derivations -/

/-- Every name that the tree of a nonterminal binds or assigns has a property. -/
def Nonterminal.BindsOnly (p : String → Prop) : (nt : Nonterminal) → nt.Tree → Prop
  | program, tree => Stmt.AllBindOnly p tree
  | declarations, tree => Stmt.AllBindOnly p tree
  | declaration, tree => Stmt.BindsOnly p tree
  | «variable», tree => Stmt.BindsOnly p tree
  | function, tree => FunDecl.BindsOnly p tree
  | methods, tree => FunDecl.AllBindOnly p tree
  | statement _, tree => Stmt.BindsOnly p tree
  | loopStart, tree => ∀ st, tree = some st → Stmt.BindsOnly p st
  | optional, tree => Expr.OptionBindsOnly p tree
  | expression _, tree => Expr.BindsOnly p tree
  | expressions _, tree => Expr.AllBindOnly p tree
  | listing _, tree => Expr.AllBindOnly p tree

/-- Every name among some tokens has a property. -/
def NamesOnly (p : String → Prop) (ts : List Token) : Prop :=
  ∀ name, .identifier name ∈ ts → p name

section

variable {x : String} {ts us : List Token}

@[simp] theorem namesOnly_nil : NamesOnly p [] :=
  nofun

@[simp] theorem namesOnly_append : NamesOnly p (ts ++ us) ↔ NamesOnly p ts ∧ NamesOnly p us := by
  simp [NamesOnly, or_imp, forall_and]

@[simp] theorem namesOnly_symbol {symbol : Symbol} : NamesOnly p (.symbol symbol :: ts) ↔ NamesOnly p ts := by
  simp [NamesOnly]

@[simp] theorem namesOnly_keyword {k : Keyword} : NamesOnly p (.keyword k :: ts) ↔ NamesOnly p ts := by
  simp [NamesOnly]

@[simp] theorem namesOnly_identifier : NamesOnly p (.identifier x :: ts) ↔ p x ∧ NamesOnly p ts := by
  simp [NamesOnly]

@[simp] theorem namesOnly_eof : NamesOnly p (.eof :: ts) ↔ NamesOnly p ts := by
  simp [NamesOnly]

/-- Names with commas between them are the names among their tokens. -/
@[simp] theorem namesOnly_names {ps : List String} : NamesOnly p (names ps) ↔ ∀ x ∈ ps, p x := by
  cases ps with
  | nil => simp [names]
  | cons first others =>
    have hbehind : NamesOnly p (namesBehind others) ↔ ∀ x ∈ others, p x := by
      simp [NamesOnly, namesBehind]
    simp [names, hbehind]

/-- No sign of an operator is a name. -/
@[simp] theorem namesOnly_infixToken {op : InfixOp} : NamesOnly p (infixToken op :: ts) ↔ NamesOnly p ts := by
  cases op with
  | binary op => cases op <;> simp [infixToken]
  | logical op => cases op <;> simp [infixToken]

/-- No sign before an operand is a name. -/
@[simp] theorem namesOnly_prefixToken {op : UnaryOp} : NamesOnly p (prefixToken op :: ts) ↔ NamesOnly p ts := by
  cases op <;> simp [prefixToken]

end

/-- An operator between operands assigns what these do. -/
theorem infixTree_bindsOnly {op : InfixOp} {left right : Expr} (hleft : left.BindsOnly p) (hright : right.BindsOnly p) :
    (infixTree op left right).BindsOnly p := by
  cases op <;> exact ⟨hleft, hright⟩

/-- A `for` loop binds and assigns what its parts do. -/
theorem forTree_bindsOnly {start : Option Stmt} {test increment : Option Expr} {body : Stmt}
    (hstart : ∀ st, start = some st → st.BindsOnly p) (htest : Expr.OptionBindsOnly p test)
    (hincrement : Expr.OptionBindsOnly p increment) (hbody : body.BindsOnly p) :
    (forTree start test increment body).BindsOnly p := by
  have htest' : (test.getD (.literal (.boolean true))).BindsOnly p := by
    cases test with
    | none => trivial
    | some e => exact htest
  cases start with
  | none =>
    cases increment with
    | none => exact ⟨htest', hbody⟩
    | some e => exact ⟨htest', hbody, hincrement, trivial⟩
  | some st =>
    cases increment with
    | none => exact ⟨hstart st rfl, ⟨htest', hbody⟩, trivial⟩
    | some e => exact ⟨hstart st rfl, ⟨htest', hbody, hincrement, trivial⟩, trivial⟩

/-- Every name that is written in a derivation has a property. -/
def Derivation.NamesOnly (p : String → Prop) : {nt : Nonterminal} → Derivation nt → Prop
  | _, program body => body.NamesOnly p
  | _, noDeclaration => True
  | _, declarations first others => first.NamesOnly p ∧ others.NamesOnly p
  | _, variableDeclaration v => v.NamesOnly p
  | _, functionDeclaration f => f.NamesOnly p
  | _, classDeclaration name parent body => p name ∧ (∀ x, parent = some x → p x) ∧ body.NamesOnly p
  | _, statement s => s.NamesOnly p
  | _, uninitialized name => p name
  | _, initialized name value => p name ∧ value.NamesOnly p
  | _, function name parameters _ body => p name ∧ (∀ x ∈ parameters, p x) ∧ body.NamesOnly p
  | _, noMethod => True
  | _, methods first others => first.NamesOnly p ∧ others.NamesOnly p
  | _, expressionStatement e => e.NamesOnly p
  | _, print e => e.NamesOnly p
  | _, block body => body.NamesOnly p
  | _, breakLoop => True
  | _, returnValue value => value.NamesOnly p
  | _, ifThen test branch => test.NamesOnly p ∧ branch.NamesOnly p
  | _, ifElse test branch other => test.NamesOnly p ∧ branch.NamesOnly p ∧ other.NamesOnly p
  | _, whileLoop test body => test.NamesOnly p ∧ body.NamesOnly p
  | _, forLoop start test increment body =>
    start.NamesOnly p ∧ test.NamesOnly p ∧ increment.NamesOnly p ∧ body.NamesOnly p
  | _, startNothing => True
  | _, startVariable v => v.NamesOnly p
  | _, startExpression e => e.NamesOnly p
  | _, absent => True
  | _, present e => e.NamesOnly p
  | _, assignVariable name value => p name ∧ value.NamesOnly p
  | _, assignProperty object name value => object.NamesOnly p ∧ p name ∧ value.NamesOnly p
  | _, assignElement object position value => object.NamesOnly p ∧ position.NamesOnly p ∧ value.NamesOnly p
  | _, unassigned e => e.NamesOnly p
  | _, operation _ _ left right => left.NamesOnly p ∧ right.NamesOnly p
  | _, operand e => e.NamesOnly p
  | _, choice test ifTrue ifFalse => test.NamesOnly p ∧ ifTrue.NamesOnly p ∧ ifFalse.NamesOnly p
  | _, unconditional e => e.NamesOnly p
  | _, signed _ e => e.NamesOnly p
  | _, unsigned e => e.NamesOnly p
  | _, call callee arguments _ => callee.NamesOnly p ∧ arguments.NamesOnly p
  | _, property object name => object.NamesOnly p ∧ p name
  | _, element object position => object.NamesOnly p ∧ position.NamesOnly p
  | _, uncalled e => e.NamesOnly p
  | _, atom _ => True
  | _, named name => p name
  | _, superMethod method => p method
  | _, group e => e.NamesOnly p
  | _, list items => items.NamesOnly p
  | _, lastExpression e => e.NamesOnly p
  | _, moreExpressions e others => e.NamesOnly p ∧ others.NamesOnly p
  | _, noExpression => True
  | _, someExpressions es => es.NamesOnly p

/-- The names that are written in a derivation are those among its tokens. -/
theorem namesOnly_tokens {nt : Nonterminal} (d : Derivation nt) : NamesOnly p d.tokens ↔ d.NamesOnly p := by
  induction d with
  | classDeclaration name parent body ih => cases parent <;> simp [Derivation.tokens, Derivation.NamesOnly, ih]
  | atom a => cases a <;> simp [Derivation.tokens, Derivation.NamesOnly, Atom.token, NamesOnly]
  | _ => simp_all [Derivation.tokens, Derivation.NamesOnly]

/-- What is derived binds and assigns only names that are written in the derivation. -/
theorem Derivation.bindsOnly : {nt : Nonterminal} → (d : Derivation nt) → d.NamesOnly p → nt.BindsOnly p d.tree
  | _, program body, h => body.bindsOnly h
  | _, noDeclaration, _ => trivial
  | _, declarations first others, h => ⟨first.bindsOnly h.1, others.bindsOnly h.2⟩
  | _, variableDeclaration v, h => v.bindsOnly h
  | _, functionDeclaration f, h => f.bindsOnly h
  | _, classDeclaration _ _ body, h => ⟨h.1, body.bindsOnly h.2.2⟩
  | _, statement s, h => s.bindsOnly h
  | _, uninitialized _, h => ⟨h, trivial⟩
  | _, initialized _ value, h => ⟨h.1, value.bindsOnly h.2⟩
  | _, function _ _ _ body, h => ⟨h.1, h.2.1, body.bindsOnly h.2.2⟩
  | _, noMethod, _ => trivial
  | _, methods first others, h => ⟨first.bindsOnly h.1, others.bindsOnly h.2⟩
  | _, expressionStatement e, h => e.bindsOnly h
  | _, print e, h => e.bindsOnly h
  | _, block body, h => body.bindsOnly h
  | _, breakLoop, _ => trivial
  | _, returnValue value, h => value.bindsOnly h
  | _, ifThen test branch, h => ⟨test.bindsOnly h.1, branch.bindsOnly h.2⟩
  | _, ifElse test branch other, h => ⟨test.bindsOnly h.1, branch.bindsOnly h.2.1, other.bindsOnly h.2.2⟩
  | _, whileLoop test body, h => ⟨test.bindsOnly h.1, body.bindsOnly h.2⟩
  | _, forLoop start test increment body, h =>
    forTree_bindsOnly (start.bindsOnly h.1) (test.bindsOnly h.2.1) (increment.bindsOnly h.2.2.1)
      (body.bindsOnly h.2.2.2)
  | _, startNothing, _ => nofun
  | _, startVariable v, h => fun _ hst => Option.some.inj hst ▸ v.bindsOnly h
  | _, startExpression e, h => fun _ hst => Option.some.inj hst ▸ e.bindsOnly h
  | _, absent, _ => trivial
  | _, present e, h => e.bindsOnly h
  | _, assignVariable _ value, h => ⟨h.1, value.bindsOnly h.2⟩
  | _, assignProperty object _ value, h => ⟨object.bindsOnly h.1, value.bindsOnly h.2.2⟩
  | _, assignElement object position value, h =>
    ⟨object.bindsOnly h.1, position.bindsOnly h.2.1, value.bindsOnly h.2.2⟩
  | _, unassigned e, h => e.bindsOnly h
  | _, operation _ _ left right, h => infixTree_bindsOnly (left.bindsOnly h.1) (right.bindsOnly h.2)
  | _, operand e, h => e.bindsOnly h
  | _, choice test ifTrue ifFalse, h => ⟨test.bindsOnly h.1, ifTrue.bindsOnly h.2.1, ifFalse.bindsOnly h.2.2⟩
  | _, unconditional e, h => e.bindsOnly h
  | _, signed _ e, h => e.bindsOnly h
  | _, unsigned e, h => e.bindsOnly h
  | _, call callee arguments _, h => ⟨callee.bindsOnly h.1, arguments.bindsOnly h.2⟩
  | _, property object _, h => object.bindsOnly h.1
  | _, element object position, h => ⟨object.bindsOnly h.1, position.bindsOnly h.2⟩
  | _, uncalled e, h => e.bindsOnly h
  | _, atom a, _ => by cases a <;> trivial
  | _, named _, _ => trivial
  | _, superMethod _, _ => trivial
  | _, group e, h => e.bindsOnly h
  | _, list items, h => items.bindsOnly h
  | _, lastExpression e, h => ⟨e.bindsOnly h, trivial⟩
  | _, moreExpressions e others, h => ⟨e.bindsOnly h.1, others.bindsOnly h.2⟩
  | _, noExpression, _ => trivial
  | _, someExpressions es, h => es.bindsOnly h

end Grammar

/-! ## Texts -/

/-- The names under which methods find their instance and the parent of their class, and which no program binds. -/
def Bindable (name : String) : Prop :=
  name ≠ thisName ∧ name ≠ superName

/-- A lexeme that is read as a name is no reserved word. -/
theorem Token.ofWord?_of_ofLexeme {lexeme : List Char} {name : String}
    (h : Token.ofLexeme lexeme = .ok (.identifier name)) : Keyword.ofWord? name = none := by
  unfold Token.ofLexeme at h
  split at h
  · exact nomatch h
  · split at h
    · exact nomatch h
    · dsimp only at h
      split_ifs at h
      · exact nomatch Except.ok.inj h
      · exact nomatch Except.ok.inj h
      · split at h
        · exact nomatch Except.ok.inj h
        · rename_i hword
          obtain rfl := Token.identifier.inj (Except.ok.inj h)
          exact hword

/-- A name among the scanned items is no reserved word. -/
theorem ofWord?_of_mem_scanFrom {name : String} : ∀ {p : Position} {skip : Nat} {cs : List Char} {item : Item},
    item ∈ scanFrom p skip cs → item.content = .ok (.identifier name) → Keyword.ofWord? name = none
  | _, _, [], _, h, _ => by
    simp [scanFrom] at h
  | p, skip + 1, c :: rest, item, h, hitem => by
    rw [scanFrom] at h
    exact ofWord?_of_mem_scanFrom h hitem
  | p, 0, c :: rest, item, h, hitem => by
    rw [scanFrom] at h
    split_ifs at h
    · exact ofWord?_of_mem_scanFrom h hitem
    · exact ofWord?_of_mem_scanFrom h hitem
    · rcases List.mem_cons.1 h with rfl | h
      · exact Token.ofWord?_of_ofLexeme hitem
      · exact ofWord?_of_mem_scanFrom h hitem

/-- What is no reserved word may be bound. -/
theorem Bindable.of_ofWord? {name : String} (h : Keyword.ofWord? name = none) : Bindable name := by
  constructor
  · rintro rfl
    exact nomatch h
  · rintro rfl
    exact nomatch h

/-- A program that is read from a text has a derivation whose names are names among the items of the text. -/
theorem exists_derivation_namesOnly {text : String} {program : Program} (h : Program.parse text = .ok program)
    (hp : ∀ item ∈ scanItems text, ∀ name, item.content = .ok (.identifier name) → p name) :
    ∃ d : Grammar.Derivation .program, d.NamesOnly p ∧ d.tree = program := by
  obtain ⟨-, d, htokens, htree⟩ := Grammar.derivation_of_parse h
  refine ⟨d, (Grammar.namesOnly_tokens d).1 fun name hname => ?_, htree⟩
  rw [htokens, Grammar.tokens_scan] at hname
  have hscanned : Token.identifier name ∈ (scanItems text).filterMap Item.token? := by
    simpa using hname
  obtain ⟨item, hitem, htoken⟩ := List.mem_filterMap.1 hscanned
  have hcontent : item.content = .ok (.identifier name) := by
    unfold Item.token? at htoken
    split at htoken
    · rename_i t ht
      rw [ht, Option.some.inj htoken]
    · exact nomatch htoken
  exact hp item hitem name hcontent

/-- A program that is read from a text binds neither `this` nor `super`. -/
theorem bindsOnly_of_parse {text : String} {p : Program} (h : Program.parse text = .ok p) :
    Stmt.AllBindOnly Bindable p := by
  obtain ⟨d, hnames, rfl⟩ := exists_derivation_namesOnly h fun item hitem name hcontent =>
    Bindable.of_ofWord? (ofWord?_of_mem_scanFrom hitem hcontent)
  exact d.bindsOnly hnames

end Lox
