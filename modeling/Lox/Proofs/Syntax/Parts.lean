import Lox.Proofs.Grammar.Names
import Lox.Proofs.Token.Positions

/-!
# The parts of expressions

The expressions of a program: those in its statements, and the parts of these (`Stmt.expressions`, `Expr.parts`). Where
a program is read from a text, every name in them is a word that the text has as a name (`isName_of_isRead`).
-/

namespace Lox

/-! ## Expressions in programs -/

mutual

/-- An expression and its parts, the parts of these, and so on. -/
def Expr.parts : Expr → List Expr
  | .literal value => [.literal value]
  | .group inner => .group inner :: inner.parts
  | .unary op operand => .unary op operand :: operand.parts
  | .binary left op right => .binary left op right :: (left.parts ++ right.parts)
  | .logical left op right => .logical left op right :: (left.parts ++ right.parts)
  | .ternary test ifTrue ifFalse => .ternary test ifTrue ifFalse :: (test.parts ++ (ifTrue.parts ++ ifFalse.parts))
  | .list items => .list items :: Expr.allParts items
  | .variable name => [.variable name]
  | .this => [.this]
  | .super method => [.super method]
  | .assign target value => .assign target value :: value.parts
  | .call callee arguments => .call callee arguments :: (callee.parts ++ Expr.allParts arguments)
  | .get object property => .get object property :: object.parts
  | .set object property value => .set object property value :: (object.parts ++ value.parts)
  | .index object position => .index object position :: (object.parts ++ position.parts)
  | .setIndex object position value =>
    .setIndex object position value :: (object.parts ++ (position.parts ++ value.parts))

/-- Some expressions with their parts. -/
def Expr.allParts : List Expr → List Expr
  | [] => []
  | e :: others => e.parts ++ Expr.allParts others

end

/-- An expression, if there is one, with its parts. -/
def Expr.optionParts : Option Expr → List Expr
  | none => []
  | some e => e.parts

mutual

/-- The expressions in a statement. The parent of a class is a variable. -/
def Stmt.expressions : Stmt → List Expr
  | .varDecl _ init => Expr.optionParts init
  | .funDecl d => d.expressions
  | .classDecl _ none methods => FunDecl.allExpressions methods
  | .classDecl _ (some parent) methods => .variable parent :: FunDecl.allExpressions methods
  | .expression value => value.parts
  | .print value => value.parts
  | .block body => Stmt.allExpressions body
  | .conditional test thenBranch none => test.parts ++ thenBranch.expressions
  | .conditional test thenBranch (some other) => test.parts ++ (thenBranch.expressions ++ other.expressions)
  | .loop test body => test.parts ++ body.expressions
  | .breakLoop => []
  | .returnValue value => Expr.optionParts value

/-- The expressions in some statements. -/
def Stmt.allExpressions : List Stmt → List Expr
  | [] => []
  | st :: others => st.expressions ++ Stmt.allExpressions others

/-- The expressions in the body of a function. -/
def FunDecl.expressions : FunDecl → List Expr
  | .mk _ _ body => Stmt.allExpressions body

/-- The expressions in the bodies of some functions. -/
def FunDecl.allExpressions : List FunDecl → List Expr
  | [] => []
  | d :: others => d.expressions ++ FunDecl.allExpressions others

end

/-- An expression that is read: one of a program that some text is read as. -/
def Expr.IsRead (e : Expr) : Prop :=
  ∃ text p, Program.parse text = .ok p ∧ e ∈ Stmt.allExpressions p

/-- The names of an expression itself, apart from its parts. -/
def Expr.ownNames : Expr → List String
  | .variable name => [name]
  | .super method => [method]
  | .assign target _ => [target]
  | .get _ property => [property]
  | .set _ property _ => [property]
  | _ => []

/-- Every name in some expressions has a property. -/
def Expr.NamesAmong (p : String → Prop) (es : List Expr) : Prop :=
  ∀ e ∈ es, ∀ part ∈ e.parts, ∀ name ∈ part.ownNames, p name

variable {p : String → Prop} {es es' : List Expr} {e : Expr}

@[simp] theorem Expr.namesAmong_nil : Expr.NamesAmong p [] :=
  nofun

@[simp] theorem Expr.namesAmong_append :
    Expr.NamesAmong p (es ++ es') ↔ Expr.NamesAmong p es ∧ Expr.NamesAmong p es' :=
  List.forall_mem_append

/-- An expression is a part of itself. -/
theorem Expr.mem_parts (e : Expr) : e ∈ e.parts := by
  cases e <;> exact List.mem_cons_self

/-- The names in an expression and in its parts are its own names and those in the other parts. -/
theorem Expr.namesAmong_node (hparts : e.parts = e :: es) (hown : ∀ name ∈ e.ownNames, p name)
    (hes : Expr.NamesAmong p es) : Expr.NamesAmong p e.parts := by
  have hnode : ∀ part ∈ e.parts, ∀ name ∈ part.ownNames, p name := by
    rw [hparts]
    exact List.forall_mem_cons.2 ⟨hown, fun part hpart => hes part hpart part part.mem_parts⟩
  intro e' he'
  rw [hparts] at he'
  rcases List.mem_cons.1 he' with rfl | he'
  · exact hnode
  · exact hes e' he'

namespace Grammar

/-! ## Derivations -/

/-- The expressions in the tree of a nonterminal. -/
def Nonterminal.expressionsIn : (nt : Nonterminal) → nt.Tree → List Expr
  | program, tree => Stmt.allExpressions tree
  | declarations, tree => Stmt.allExpressions tree
  | declaration, tree => Stmt.expressions tree
  | «variable», tree => Stmt.expressions tree
  | function, tree => FunDecl.expressions tree
  | methods, tree => FunDecl.allExpressions tree
  | statement _, tree => Stmt.expressions tree
  | loopStart, none => []
  | loopStart, some st => Stmt.expressions st
  | optional, tree => Expr.optionParts tree
  | expression _, tree => Expr.parts tree
  | expressions _, tree => Expr.allParts tree
  | listing _, tree => Expr.allParts tree

/-- An operator between operands has no name of its own. -/
theorem namesAmong_infixTree {op : InfixOp} {left right : Expr} (hleft : Expr.NamesAmong p left.parts)
    (hright : Expr.NamesAmong p right.parts) : Expr.NamesAmong p (infixTree op left right).parts := by
  cases op <;> exact Expr.namesAmong_node rfl nofun (Expr.namesAmong_append.2 ⟨hleft, hright⟩)

/-- A `for` loop has the names that its parts have. -/
theorem namesAmong_forTree {start : Option Stmt} {test increment : Option Expr} {body : Stmt}
    (hstart : Expr.NamesAmong p (Nonterminal.expressionsIn .loopStart start))
    (htest : Expr.NamesAmong p (Expr.optionParts test)) (hincrement : Expr.NamesAmong p (Expr.optionParts increment))
    (hbody : Expr.NamesAmong p body.expressions) :
    Expr.NamesAmong p (forTree start test increment body).expressions := by
  have htest' : Expr.NamesAmong p (test.getD (.literal (.boolean true))).parts := by
    cases test with
    | none => exact Expr.namesAmong_node rfl nofun Expr.namesAmong_nil
    | some e => exact htest
  cases start with
  | none =>
    cases increment with
    | none => simp [forTree, Stmt.expressions, htest', hbody]
    | some e =>
      have he : Expr.NamesAmong p e.parts := hincrement
      simp [forTree, Stmt.expressions, Stmt.allExpressions, htest', hbody, he]
  | some st =>
    have hst : Expr.NamesAmong p st.expressions := hstart
    cases increment with
    | none => simp [forTree, Stmt.expressions, Stmt.allExpressions, htest', hbody, hst]
    | some e =>
      have he : Expr.NamesAmong p e.parts := hincrement
      simp [forTree, Stmt.expressions, Stmt.allExpressions, htest', hbody, hst, he]

open Nonterminal (expressionsIn) in
/-- The names in what is derived are written in the derivation. -/
theorem Derivation.namesAmong : {nt : Nonterminal} → (d : Derivation nt) → d.NamesOnly p →
    Expr.NamesAmong p (nt.expressionsIn d.tree)
  | _, program body, h => body.namesAmong h
  | _, noDeclaration, _ => Expr.namesAmong_nil
  | _, declarations first others, h => Expr.namesAmong_append.2 ⟨first.namesAmong h.1, others.namesAmong h.2⟩
  | _, variableDeclaration v, h => v.namesAmong h
  | _, functionDeclaration f, h => f.namesAmong h
  | _, classDeclaration _ none body, h => body.namesAmong h.2.2
  | _, classDeclaration _ (some parent) body, h => by
    have hvariable : Expr.NamesAmong p (Expr.variable parent).parts :=
      Expr.namesAmong_node rfl (List.forall_mem_singleton.2 (h.2.1 parent rfl)) Expr.namesAmong_nil
    exact Expr.namesAmong_append.2 ⟨hvariable, body.namesAmong h.2.2⟩
  | _, statement s, h => s.namesAmong h
  | _, uninitialized _, _ => Expr.namesAmong_nil
  | _, initialized _ value, h => value.namesAmong h.2
  | _, function _ _ _ body, h => body.namesAmong h.2.2
  | _, noMethod, _ => Expr.namesAmong_nil
  | _, methods first others, h => Expr.namesAmong_append.2 ⟨first.namesAmong h.1, others.namesAmong h.2⟩
  | _, expressionStatement e, h => e.namesAmong h
  | _, print e, h => e.namesAmong h
  | _, block body, h => body.namesAmong h
  | _, breakLoop, _ => Expr.namesAmong_nil
  | _, returnValue value, h => value.namesAmong h
  | _, ifThen test branch, h => Expr.namesAmong_append.2 ⟨test.namesAmong h.1, branch.namesAmong h.2⟩
  | _, ifElse test branch other, h =>
    Expr.namesAmong_append.2 ⟨test.namesAmong h.1,
      Expr.namesAmong_append.2 ⟨branch.namesAmong h.2.1, other.namesAmong h.2.2⟩⟩
  | _, whileLoop test body, h => Expr.namesAmong_append.2 ⟨test.namesAmong h.1, body.namesAmong h.2⟩
  | _, forLoop start test increment body, h =>
    namesAmong_forTree (start.namesAmong h.1) (test.namesAmong h.2.1) (increment.namesAmong h.2.2.1)
      (body.namesAmong h.2.2.2)
  | _, startNothing, _ => Expr.namesAmong_nil
  | _, startVariable v, h => v.namesAmong h
  | _, startExpression e, h => e.namesAmong h
  | _, absent, _ => Expr.namesAmong_nil
  | _, present e, h => e.namesAmong h
  | _, assignVariable _ value, h =>
    Expr.namesAmong_node rfl (List.forall_mem_singleton.2 h.1) (value.namesAmong h.2)
  | _, assignProperty object _ value, h =>
    Expr.namesAmong_node rfl (List.forall_mem_singleton.2 h.2.1)
      (Expr.namesAmong_append.2 ⟨object.namesAmong h.1, value.namesAmong h.2.2⟩)
  | _, assignElement object position value, h =>
    Expr.namesAmong_node rfl nofun (Expr.namesAmong_append.2 ⟨object.namesAmong h.1,
      Expr.namesAmong_append.2 ⟨position.namesAmong h.2.1, value.namesAmong h.2.2⟩⟩)
  | _, unassigned e, h => e.namesAmong h
  | _, operation _ _ left right, h => namesAmong_infixTree (left.namesAmong h.1) (right.namesAmong h.2)
  | _, operand e, h => e.namesAmong h
  | _, choice test ifTrue ifFalse, h =>
    Expr.namesAmong_node rfl nofun (Expr.namesAmong_append.2 ⟨test.namesAmong h.1,
      Expr.namesAmong_append.2 ⟨ifTrue.namesAmong h.2.1, ifFalse.namesAmong h.2.2⟩⟩)
  | _, unconditional e, h => e.namesAmong h
  | _, signed _ e, h => Expr.namesAmong_node rfl nofun (e.namesAmong h)
  | _, unsigned e, h => e.namesAmong h
  | _, call callee arguments _, h =>
    Expr.namesAmong_node rfl nofun (Expr.namesAmong_append.2 ⟨callee.namesAmong h.1, arguments.namesAmong h.2⟩)
  | _, property object _, h =>
    Expr.namesAmong_node rfl (List.forall_mem_singleton.2 h.2) (object.namesAmong h.1)
  | _, element object position, h =>
    Expr.namesAmong_node rfl nofun (Expr.namesAmong_append.2 ⟨object.namesAmong h.1, position.namesAmong h.2⟩)
  | _, uncalled e, h => e.namesAmong h
  | _, atom a, _ => by cases a <;> exact Expr.namesAmong_node rfl nofun Expr.namesAmong_nil
  | _, named _, h => Expr.namesAmong_node rfl (List.forall_mem_singleton.2 h) Expr.namesAmong_nil
  | _, superMethod _, h => Expr.namesAmong_node rfl (List.forall_mem_singleton.2 h) Expr.namesAmong_nil
  | _, group e, h => Expr.namesAmong_node rfl nofun (e.namesAmong h)
  | _, list items, h => Expr.namesAmong_node rfl nofun (items.namesAmong h)
  | _, lastExpression e, h => Expr.namesAmong_append.2 ⟨e.namesAmong h, Expr.namesAmong_nil⟩
  | _, moreExpressions e others, h => Expr.namesAmong_append.2 ⟨e.namesAmong h.1, others.namesAmong h.2⟩
  | _, noExpression, _ => Expr.namesAmong_nil
  | _, someExpressions es, h => es.namesAmong h

end Grammar

/-! ## Texts -/

/-- A letter or `_`, then letters, numerals and `_`. -/
def IsName (name : String) : Prop :=
  ∃ c rest, name.toList = c :: rest ∧ startsName c = true ∧ ∀ d ∈ rest, continuesName d = true

/-- What is scanned as a name is one. -/
theorem isName_of_mem_scanItems {text : String} {item : Item} (hitem : item ∈ scanItems text) {name : String}
    (hcontent : item.content = .ok (.identifier name)) : IsName name := by
  obtain ⟨pieces, -, -, hyields⟩ := exists_yields_scanFrom {} text.toList
  obtain ⟨earlier, later, hitems⟩ := List.append_of_mem hitem
  obtain ⟨-, piece, -, -, -, hslice, -⟩ := hyields.split hitems
  rw [hcontent] at hslice
  cases hslice with
  | token hlexeme =>
    cases hlexeme with
    | identifier hfirst hrest _ => exact ⟨_, _, String.toList_ofList, hfirst, hrest⟩

/-- The names in what is read are names. -/
theorem isName_of_isRead (he : e.IsRead) : ∀ part ∈ e.parts, ∀ name ∈ part.ownNames, IsName name := by
  obtain ⟨text, program, hparse, he⟩ := he
  obtain ⟨d, hnames, rfl⟩ := exists_derivation_namesOnly hparse fun item hitem name hcontent =>
    isName_of_mem_scanItems hitem hcontent
  exact d.namesAmong hnames e he

end Lox
