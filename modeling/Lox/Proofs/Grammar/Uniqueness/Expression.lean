import Lox.Proofs.Grammar.Precedence

/-!
# Expressions are derived in one way

No expression has two derivations of one level. The rank of a tree tells which production its derivation ends with, and
the parts of the tree are those of the derivation.
-/

namespace Lox.Grammar

/-- An atom is the only one that means what it does. -/
theorem Atom.tree_injective {a a' : Atom} (h : a.tree = a'.tree) : a = a' := by
  cases a <;> cases a' <;> simp_all [Atom.tree]

namespace Derivation

/-- An expression of a looser rank is not the tree of a derivation. -/
theorem tree_ne {level : Level} (d : Derivation (.expression level)) {e : Expr} (h : level.rank < e.rank) :
    d.tree ≠ e := by
  rintro rfl
  exact absurd d.tree_rank_le (Nat.not_le.2 h)

/-- Derivations of several expressions mean as many. -/
theorem length_expressions : {count : Nat} → (d : Derivation (.expressions count)) → List.length d.tree = count
  | _, lastExpression _ => rfl
  | _, moreExpressions _ others => congrArg Nat.succ others.length_expressions

/-- Derivations of a list of expressions mean as many. -/
theorem length_listing {count : Nat} (d : Derivation (.listing count)) : List.length d.tree = count := by
  cases d with
  | noExpression => rfl
  | someExpressions es => exact es.length_expressions

/-- An operator and its operands make one expression. -/
theorem infixTree_injective {op op' : InfixOp} {l l' r r' : Expr} (h : infixTree op l r = infixTree op' l' r') :
    op = op' ∧ l = l' ∧ r = r' := by
  rcases op with op | op <;> rcases op' with op' | op'
  · obtain ⟨rfl, rfl, rfl⟩ := Expr.binary.inj h
    exact ⟨rfl, rfl, rfl⟩
  · exact nomatch h
  · exact nomatch h
  · obtain ⟨rfl, rfl, rfl⟩ := Expr.logical.inj h
    exact ⟨rfl, rfl, rfl⟩

/-- An operator makes a looser expression than its operands are. -/
theorem operandLevel_rank_lt_infixTree {level : InfixLevel} {op : InfixOp} {l r : Expr} (h : levelOf op = level) :
    (operandLevel level).rank < (infixTree op l r).rank := by
  rw [infixTree_rank, h]
  exact operandLevel_rank_lt level

mutual

/-- An expression is derived in one way at each level. -/
theorem tree_injective : {level : Level} → (d d' : Derivation (.expression level)) → d.tree = d'.tree → d = d'
  -- A level has its own productions and one that leads to a tighter level. Two derivations that end with the same one
  -- agree part by part; one that ends with the other has too low a rank; two others of the level make other trees.
  | _, assignVariable name value, d', h => by
    cases d' with
    | assignVariable name' value' =>
      obtain ⟨rfl, hvalue⟩ := Expr.assign.inj h
      rw [tree_injective value value' hvalue]
    | unassigned e => exact absurd h.symm (e.tree_ne (Nat.le_refl 10))
    | _ => exact nomatch h
  | _, assignProperty object name value, d', h => by
    cases d' with
    | assignProperty object' name' value' =>
      obtain ⟨hobject, rfl, hvalue⟩ := Expr.set.inj h
      rw [tree_injective object object' hobject, tree_injective value value' hvalue]
    | unassigned e => exact absurd h.symm (e.tree_ne (Nat.le_refl 10))
    | _ => exact nomatch h
  | _, assignElement object position value, d', h => by
    cases d' with
    | assignElement object' position' value' =>
      obtain ⟨hobject, hposition, hvalue⟩ := Expr.setIndex.inj h
      rw [tree_injective object object' hobject, tree_injective position position' hposition,
        tree_injective value value' hvalue]
    | unassigned e => exact absurd h.symm (e.tree_ne (Nat.le_refl 10))
    | _ => exact nomatch h
  | _, unassigned e, d', h => by
    cases d' with
    | unassigned e' => rw [tree_injective e e' h]
    | assignVariable name value => exact absurd h (e.tree_ne (Nat.le_refl 10))
    | assignProperty object name value => exact absurd h (e.tree_ne (Nat.le_refl 10))
    | assignElement object position value => exact absurd h (e.tree_ne (Nat.le_refl 10))
  | _, operation op at_level left right, d', h => by
    cases d' with
    | operation op' at_level' left' right' =>
      obtain ⟨rfl, hleft, hright⟩ := infixTree_injective h
      rw [tree_injective left left' hleft, tree_injective right right' hright]
    | operand e => exact absurd h.symm (e.tree_ne (operandLevel_rank_lt_infixTree at_level))
  | _, operand e, d', h => by
    cases d' with
    | operation op at_level left right => exact absurd h (e.tree_ne (operandLevel_rank_lt_infixTree at_level))
    | operand e' => rw [tree_injective e e' h]
  | _, choice test ifTrue ifFalse, d', h => by
    cases d' with
    | choice test' ifTrue' ifFalse' =>
      obtain ⟨htest, htrue, hfalse⟩ := Expr.ternary.inj h
      rw [tree_injective test test' htest, tree_injective ifTrue ifTrue' htrue, tree_injective ifFalse ifFalse' hfalse]
    | unconditional e => exact absurd h.symm (e.tree_ne (Nat.le_refl 6))
  | _, unconditional e, d', h => by
    cases d' with
    | choice test ifTrue ifFalse => exact absurd h (e.tree_ne (Nat.le_refl 6))
    | unconditional e' => rw [tree_injective e e' h]
  | _, signed op e, d', h => by
    cases d' with
    | signed op' e' =>
      obtain ⟨rfl, he⟩ := Expr.unary.inj h
      rw [tree_injective e e' he]
    | unsigned e' => exact absurd h.symm (e'.tree_ne (Nat.le_refl 2))
  | _, unsigned e, d', h => by
    cases d' with
    | signed op e' => exact absurd h (e.tree_ne (Nat.le_refl 2))
    | unsigned e' => rw [tree_injective e e' h]
  | _, @call count callee arguments few, d', h => by
    cases d' with
    | @call count' callee' arguments' few' =>
      obtain ⟨hcallee, harguments⟩ := Expr.call.inj h
      -- The numbers of arguments are in the types, and have to be made one first.
      obtain rfl : count = count' := by
        rw [← arguments.length_listing, ← arguments'.length_listing, harguments]
      rw [tree_injective callee callee' hcallee, tree_injective_listing arguments arguments' harguments]
    | uncalled e => exact absurd h.symm (e.tree_ne (Nat.le_refl 1))
    | _ => exact nomatch h
  | _, property object name, d', h => by
    cases d' with
    | property object' name' =>
      obtain ⟨hobject, rfl⟩ := Expr.get.inj h
      rw [tree_injective object object' hobject]
    | uncalled e => exact absurd h.symm (e.tree_ne (Nat.le_refl 1))
    | _ => exact nomatch h
  | _, element object position, d', h => by
    cases d' with
    | element object' position' =>
      obtain ⟨hobject, hposition⟩ := Expr.index.inj h
      rw [tree_injective object object' hobject, tree_injective position position' hposition]
    | uncalled e => exact absurd h.symm (e.tree_ne (Nat.le_refl 1))
    | _ => exact nomatch h
  | _, uncalled e, d', h => by
    cases d' with
    | uncalled e' => rw [tree_injective e e' h]
    | call callee arguments few => exact absurd h (e.tree_ne (Nat.le_refl 1))
    | property object name => exact absurd h (e.tree_ne (Nat.le_refl 1))
    | element object position => exact absurd h (e.tree_ne (Nat.le_refl 1))
  | _, atom a, d', h => by
    cases d' with
    | atom a' => rw [Atom.tree_injective h]
    | _ => cases a <;> exact nomatch h
  | _, named name, d', h => by
    cases d' with
    | named name' => rw [Expr.variable.inj h]
    | atom a => cases a <;> exact nomatch h
    | _ => exact nomatch h
  | _, superMethod method, d', h => by
    cases d' with
    | superMethod method' => rw [Expr.super.inj h]
    | atom a => cases a <;> exact nomatch h
    | _ => exact nomatch h
  | _, group e, d', h => by
    cases d' with
    | group e' => rw [tree_injective e e' (Expr.group.inj h)]
    | atom a => cases a <;> exact nomatch h
    | _ => exact nomatch h
  | _, @list count items, d', h => by
    cases d' with
    | @list count' items' =>
      have hitems := Expr.list.inj h
      obtain rfl : count = count' := by
        rw [← items.length_listing, ← items'.length_listing, hitems]
      rw [tree_injective_listing items items' hitems]
    | atom a => cases a <;> exact nomatch h
    | _ => exact nomatch h

/-- Several expressions are derived in one way. -/
theorem tree_injective_expressions : {count : Nat} → (d d' : Derivation (.expressions count)) → d.tree = d'.tree →
    d = d'
  | _, lastExpression e, d', h => by
    cases d' with
    | lastExpression e' => rw [tree_injective e e' (List.cons.inj h).1]
    | moreExpressions e' others => cases others
  | _, moreExpressions e others, d', h => by
    cases d' with
    | lastExpression e' => cases others
    | moreExpressions e' others' =>
      rw [tree_injective e e' (List.cons.inj h).1, tree_injective_expressions others others' (List.cons.inj h).2]

/-- A list of expressions is derived in one way. -/
theorem tree_injective_listing : {count : Nat} → (d d' : Derivation (.listing count)) → d.tree = d'.tree → d = d'
  | _, noExpression, d', h => by
    cases d' with
    | noExpression => rfl
    | someExpressions es => cases es
  | _, someExpressions es, d', h => by
    cases d' with
    | noExpression => cases es
    | someExpressions es' => rw [tree_injective_expressions es es' h]

end

end Derivation

end Lox.Grammar
