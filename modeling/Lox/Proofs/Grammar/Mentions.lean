import Lox.Machine.Basic

/-!
# Names that code mentions

Which names code may look up, assign or bind in scopes (`MentionsOnly`): those of variables and parameters, of declared
functions and classes, and of parent classes. The names of properties and methods are not among them, since these are
looked up in instances and classes. What the machine has in focus and keeps in frames mentions what its code does.
-/

namespace Lox

variable {p : String → Prop}

mutual

/-- Every name that an expression mentions has a property. -/
def Expr.MentionsOnly (p : String → Prop) : Expr → Prop
  | literal _ => True
  | group inner => inner.MentionsOnly p
  | unary _ operand => operand.MentionsOnly p
  | binary left _ right => left.MentionsOnly p ∧ right.MentionsOnly p
  | logical left _ right => left.MentionsOnly p ∧ right.MentionsOnly p
  | ternary test ifTrue ifFalse => test.MentionsOnly p ∧ ifTrue.MentionsOnly p ∧ ifFalse.MentionsOnly p
  | list items => Expr.AllMentionOnly p items
  | «variable» name => p name
  | this => True
  | super _ => True
  | assign target value => p target ∧ value.MentionsOnly p
  | call callee arguments => callee.MentionsOnly p ∧ Expr.AllMentionOnly p arguments
  | get object _ => object.MentionsOnly p
  | set object _ value => object.MentionsOnly p ∧ value.MentionsOnly p
  | index object position => object.MentionsOnly p ∧ position.MentionsOnly p
  | setIndex object position value => object.MentionsOnly p ∧ position.MentionsOnly p ∧ value.MentionsOnly p

/-- Every name that some expressions mention has a property. -/
def Expr.AllMentionOnly (p : String → Prop) : List Expr → Prop
  | [] => True
  | e :: others => e.MentionsOnly p ∧ Expr.AllMentionOnly p others

end

/-- Every name that an expression, if there is one, mentions has a property. -/
def Expr.OptionMentionsOnly (p : String → Prop) : Option Expr → Prop
  | none => True
  | some e => e.MentionsOnly p

mutual

/-- Every name that a statement mentions has a property. -/
def Stmt.MentionsOnly (p : String → Prop) : Stmt → Prop
  | .varDecl name init => p name ∧ Expr.OptionMentionsOnly p init
  | .funDecl d => p d.name ∧ d.MentionsOnly p
  | .classDecl name parent methods =>
    p name ∧ (∀ inherited, parent = some inherited → p inherited) ∧ FunDecl.AllMentionOnly p methods
  | .expression value => value.MentionsOnly p
  | .print value => value.MentionsOnly p
  | .block body => Stmt.AllMentionOnly p body
  | .conditional test thenBranch none => test.MentionsOnly p ∧ thenBranch.MentionsOnly p
  | .conditional test thenBranch (some other) =>
    test.MentionsOnly p ∧ thenBranch.MentionsOnly p ∧ other.MentionsOnly p
  | .loop test body => test.MentionsOnly p ∧ body.MentionsOnly p
  | .breakLoop => True
  | .returnValue value => Expr.OptionMentionsOnly p value

/-- Every name that some statements mention has a property. -/
def Stmt.AllMentionOnly (p : String → Prop) : List Stmt → Prop
  | [] => True
  | st :: others => st.MentionsOnly p ∧ Stmt.AllMentionOnly p others

/-- The parameters of a function, and every name that its body mentions, have a property. The name of the function is
left to the statement that declares it; that of a method is the name of a property. -/
def FunDecl.MentionsOnly (p : String → Prop) : FunDecl → Prop
  | .mk _ parameters body => (∀ x ∈ parameters, p x) ∧ Stmt.AllMentionOnly p body

/-- So do those of some functions. -/
def FunDecl.AllMentionOnly (p : String → Prop) : List FunDecl → Prop
  | [] => True
  | d :: others => d.MentionsOnly p ∧ FunDecl.AllMentionOnly p others

end

/-- A function mentions only what all functions together do. -/
theorem FunDecl.mentionsOnly_of_mem {d : FunDecl} :
    ∀ {ds : List FunDecl}, FunDecl.AllMentionOnly p ds → d ∈ ds → d.MentionsOnly p
  | [], _, hd => nomatch hd
  | _ :: _, ⟨hfirst, hothers⟩, hd => by
    rcases List.mem_cons.1 hd with rfl | hd
    · exact hfirst
    · exact FunDecl.mentionsOnly_of_mem hothers hd

/-- The parameters of a function have the property. -/
theorem FunDecl.MentionsOnly.parameters {d : FunDecl} (hd : d.MentionsOnly p) : ∀ x ∈ d.parameters, p x := by
  cases d with
  | mk name parameters body => exact hd.1

/-- So has every name that the body mentions. -/
theorem FunDecl.MentionsOnly.body {d : FunDecl} (hd : d.MentionsOnly p) : Stmt.AllMentionOnly p d.body := by
  cases d with
  | mk name parameters body => exact hd.2

/-- Every name that the code in focus mentions has a property. -/
def Focus.MentionsOnly (p : String → Prop) : Focus → Prop
  | evaluate e => e.MentionsOnly p
  | execute st => st.MentionsOnly p
  | deliver _ => True

/-- Every name that a frame mentions, in the code that it keeps or by itself, has a property. -/
def Frame.MentionsOnly (p : String → Prop) : Frame → Prop
  | choice ifTrue ifFalse => ifTrue.MentionsOnly p ∧ ifFalse.MentionsOnly p
  | leftOperand _ right => right.MentionsOnly p
  | connective _ right => right.MentionsOnly p
  | callee arguments => Expr.AllMentionOnly p arguments
  | gather _ _ todo => Expr.AllMentionOnly p todo
  | assign target => p target
  | fieldOwner _ value => value.MentionsOnly p
  | elementOwner position => position.MentionsOnly p
  | updateOwner position value => position.MentionsOnly p ∧ value.MentionsOnly p
  | updatePosition _ value => value.MentionsOnly p
  | define name => p name
  | branch thenBranch elseBranch =>
    thenBranch.MentionsOnly p ∧ ∀ other, elseBranch = some other → other.MentionsOnly p
  | loopTest test body => test.MentionsOnly p ∧ body.MentionsOnly p
  | loopBody test body => test.MentionsOnly p ∧ body.MentionsOnly p
  | statements rest => Stmt.AllMentionOnly p rest
  | _ => True

end Lox
