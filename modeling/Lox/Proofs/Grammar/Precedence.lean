import Lox.Proofs.Grammar.Derivation

/-!
# Precedence

The levels of expressions by rank, tightest first. A derivation of a level means an expression whose own operator is of
that rank at most (`tree_rank_le`), and one of a tight expression is in substance a derivation of a tight level
(`lowerToCall`). The tables by which expressions are read agree with those of the grammar.
-/

namespace Lox

/-- The place of a level, tightest first. -/
def Level.rank : Level → Nat
  | primary => 0
  | call => 1
  | unary => 2
  | between .factor => 3
  | between .term => 4
  | between .comparison => 5
  | ternary => 6
  | between .equality => 7
  | between .and => 8
  | between .or => 9
  | assignment => 10

/-- The rank of the tightest level at which an expression can be written. -/
def Expr.rank : Expr → Nat
  | literal _ => 0
  | group _ => 0
  | list _ => 0
  | «variable» _ => 0
  | this => 0
  | super _ => 0
  | call _ _ => 1
  | get _ _ => 1
  | index _ _ => 1
  | unary _ _ => 2
  | binary _ op _ => (Level.between (Grammar.levelOf (.binary op))).rank
  | ternary _ _ _ => 6
  | logical _ op _ => (Level.between (Grammar.levelOf (.logical op))).rank
  | assign _ _ => 10
  | set _ _ _ => 10
  | setIndex _ _ _ => 10

/-- The rank of the level whose expressions a token makes longer when it follows them; beyond all levels if there is
none. -/
def Token.rank : Token → Nat
  | symbol .leftParen => 1
  | symbol .dot => 1
  | symbol .leftBracket => 1
  | symbol .star => 3
  | symbol .slash => 3
  | symbol .minus => 4
  | symbol .plus => 4
  | symbol .less => 5
  | symbol .lessEqual => 5
  | symbol .greater => 5
  | symbol .greaterEqual => 5
  | symbol .question => 6
  | symbol .equalEqual => 7
  | symbol .bangEqual => 7
  | keyword .andWord => 8
  | keyword .orWord => 9
  | symbol .equal => 10
  | _ => 11

namespace Grammar

/-! ## The tables of the parser -/

/-- The parser reads the operands of a level where the grammar has them. -/
theorem operand_eq_operandLevel (level : InfixLevel) : level.operand = operandLevel level := by
  cases level <;> rfl

/-- The parser takes the operators of a level for what they are in the grammar. -/
theorem operator?_eq_some_iff {level : InfixLevel} {t : Token} {op : InfixOp} :
    level.operator? t = some op ↔ levelOf op = level ∧ infixToken op = t := by
  constructor
  · intro h
    unfold InfixLevel.operator? at h
    split at h <;> first
      | obtain rfl := Option.some.inj h
        exact ⟨rfl, rfl⟩
      | exact absurd h nofun
  · rintro ⟨rfl, rfl⟩
    rcases op with op | op <;> cases op <;> rfl

/-- The parser makes of an operator and its operands what they are in the grammar. -/
theorem apply_eq_infixTree (op : InfixOp) (left right : Expr) : op.apply left right = infixTree op left right := by
  cases op <;> rfl

/-- The parser takes prefix signs for what they are in the grammar. -/
theorem unaryOp?_eq_some_iff {t : Token} {op : UnaryOp} : t.unaryOp? = some op ↔ prefixToken op = t := by
  constructor
  · intro h
    unfold Token.unaryOp? at h
    split at h
    · obtain rfl := Option.some.inj h
      rfl
    · obtain rfl := Option.some.inj h
      rfl
    · exact absurd h (by simp)
  · rintro rfl
    cases op <;> rfl

/-- The parser reads a single token as an expression just where the grammar has an atom or a name. -/
theorem expression?_eq_some_iff {t : Token} {e : Expr} :
    t.expression? = some e ↔
      (∃ a : Atom, a.token = t ∧ a.tree = e) ∨ ∃ name, t = .identifier name ∧ e = .variable name := by
  constructor
  · intro h
    unfold Token.expression? at h
    split at h
    · exact .inl ⟨.yes, rfl, Option.some.inj h⟩
    · exact .inl ⟨.no, rfl, Option.some.inj h⟩
    · exact .inl ⟨.nil, rfl, Option.some.inj h⟩
    · exact .inl ⟨.this, rfl, Option.some.inj h⟩
    · exact .inl ⟨.string _, rfl, Option.some.inj h⟩
    · exact .inl ⟨.number _, rfl, Option.some.inj h⟩
    · exact .inr ⟨_, rfl, (Option.some.inj h).symm⟩
    · exact absurd h (by simp)
  · rintro (⟨a, rfl, rfl⟩ | ⟨name, rfl, rfl⟩)
    · cases a <;> rfl
    · rfl

/-- The parser makes of the parts of a `for` loop what they mean in the grammar. -/
theorem forLoop_eq_forTree (start : Option Stmt) (test increment : Option Expr) (body : Stmt) :
    Stmt.forLoop start test increment body = forTree start test increment body := by
  cases start <;> cases increment <;> rfl

/-! ## Ranks -/

/-- The operands of a level are of a tighter one. -/
theorem operandLevel_rank_lt (level : InfixLevel) : (operandLevel level).rank < (Level.between level).rank := by
  cases level <;> decide

/-- No level of operators between operands is as tight as a prefix sign. -/
theorem two_lt_between_rank (level : InfixLevel) : 2 < (Level.between level).rank := by
  cases level <;> decide

/-- An operator makes an expression of the rank of its level. -/
theorem infixTree_rank (op : InfixOp) (left right : Expr) :
    (infixTree op left right).rank = (Level.between (levelOf op)).rank := by
  rcases op with op | op <;> cases op <;> rfl

/-- An operator makes the operands of its level longer, and nothing tighter. -/
theorem infixToken_rank (op : InfixOp) : (infixToken op).rank = (Level.between (levelOf op)).rank := by
  rcases op with op | op <;> cases op <;> rfl

/-- Atoms are as tight as can be. -/
theorem Atom.tree_rank (a : Atom) : a.tree.rank = 0 := by
  cases a <;> rfl

/-- A derivation of a level means an expression of that rank at most. -/
theorem Derivation.tree_rank_le : {level : Level} → (d : Derivation (.expression level)) →
    Expr.rank d.tree ≤ level.rank
  | _, assignVariable _ _ => Nat.le_refl 10
  | _, assignProperty _ _ _ => Nat.le_refl 10
  | _, assignElement _ _ _ => Nat.le_refl 10
  | _, unassigned e => Nat.le_trans e.tree_rank_le (by decide)
  | _, operation op at_level left right => by
    have hrank := infixTree_rank op left.tree right.tree
    rw [at_level] at hrank
    exact Nat.le_of_eq hrank
  | _, operand e => Nat.le_trans e.tree_rank_le (Nat.le_of_lt (operandLevel_rank_lt _))
  | _, choice _ _ _ => Nat.le_refl 6
  | _, unconditional e => Nat.le_trans e.tree_rank_le (by decide)
  | _, signed _ _ => Nat.le_refl 2
  | _, unsigned e => Nat.le_trans e.tree_rank_le (by decide)
  | _, call _ _ _ => Nat.le_refl 1
  | _, property _ _ => Nat.le_refl 1
  | _, element _ _ => Nat.le_refl 1
  | _, uncalled e => Nat.le_trans e.tree_rank_le (by decide)
  | _, atom a => Nat.le_of_eq a.tree_rank
  | _, named _ => Nat.le_refl 0
  | _, superMethod _ => Nat.le_refl 0
  | _, group _ => Nat.le_refl 0
  | _, list _ => Nat.le_refl 0

/-- A derivation of a call, or of something tighter, comes from one of the level of calls. -/
theorem Derivation.lowerToCall : {level : Level} → (d : Derivation (.expression level)) →
    1 ≤ level.rank → Expr.rank d.tree ≤ 1 →
      ∃ d' : Derivation (.expression .call), d'.tree = d.tree ∧ d'.tokens = d.tokens
  | _, assignVariable _ _, _, h => absurd h (by decide : ¬10 ≤ 1)
  | _, assignProperty _ _ _, _, h => absurd h (by decide : ¬10 ≤ 1)
  | _, assignElement _ _ _, _, h => absurd h (by decide : ¬10 ≤ 1)
  | _, unassigned e, _, h => e.lowerToCall (by decide) h
  | _, @operation level op at_level left right, _, h => by
    have hrank := infixTree_rank op left.tree right.tree
    have hlevel := two_lt_between_rank level
    rw [at_level] at hrank
    exact absurd (hrank ▸ h) (by omega)
  | _, @operand level e, _, h => e.lowerToCall (by cases level <;> decide) h
  | _, choice _ _ _, _, h => absurd h (by decide : ¬6 ≤ 1)
  | _, unconditional e, _, h => e.lowerToCall (by decide) h
  | _, signed _ _, _, h => absurd h (by decide : ¬2 ≤ 1)
  | _, unsigned e, _, _ => ⟨e, rfl, rfl⟩
  | _, call callee arguments few, _, _ => ⟨call callee arguments few, rfl, rfl⟩
  | _, property object name, _, _ => ⟨property object name, rfl, rfl⟩
  | _, element object position, _, _ => ⟨element object position, rfl, rfl⟩
  | _, uncalled e, _, _ => ⟨uncalled e, rfl, rfl⟩

end Grammar

end Lox
