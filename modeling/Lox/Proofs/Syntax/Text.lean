import Lox.Proofs.Number.Text
import Lox.Proofs.Syntax.Parts
import Lox.Proofs.Syntax.Sexp
import Lox.Syntax.Text

/-!
# What the text of an expression tells

The text of an expression is that of an s-expression (`Expr.toList_text`), which can be told from its characters. Head
and parts tell the expression (`Expr.eq_of_sexp_eq`), as long as no string stands in it: the text of a string may look
like anything.
-/

namespace Lox

/-! ## Expressions as s-expressions -/

mutual

/-- The s-expression that the text of an expression writes. -/
def Expr.sexp : Expr → Sexp
  | .literal l => .word l.text
  | .group e => .node "group" [e.sexp]
  | .unary op e => .node op.sign [e.sexp]
  | .binary l op r => .node op.sign [l.sexp, r.sexp]
  | .logical l op r => .node op.sign [l.sexp, r.sexp]
  | .ternary test a b => .node "?" [test.sexp, .word ":", a.sexp, b.sexp]
  | .list items => .node "list" (Expr.sexps items)
  | .variable name => .node "ident" [.word name]
  | .this => .node "this" []
  | .super method => .node "super" [.word method]
  | .assign target e => .node "=" [.word target, e.sexp]
  | .call callee arguments => .node "call" (callee.sexp :: Expr.sexps arguments)
  | .get object property => .node "get" [object.sexp, .word property]
  | .set object property e => .node "set" [object.sexp, .word property, e.sexp]
  | .index object position => .node "index" [object.sexp, position.sexp]
  | .setIndex object position e => .node "set-index" [object.sexp, position.sexp, e.sexp]

/-- The s-expressions that the texts of some expressions write. -/
def Expr.sexps : List Expr → List Sexp
  | [] => []
  | e :: rest => e.sexp :: Expr.sexps rest

end

/-- What is joined by blanks is the first, and each other one behind a blank. -/
theorem intercalate_blank_cons (first : List Char) (others : List (List Char)) :
    [' '].intercalate (first :: others) = first ++ others.flatMap (' ' :: ·) := by
  induction others generalizing first with
  | nil => rw [List.intercalate_singleton, List.flatMap_nil, List.append_nil]
  | cons second others ih =>
    rw [List.intercalate_cons_cons, ih, List.flatMap_cons, List.append_assoc]
    rfl

/-- A head and parts in parentheses are a node, if the parts are written as its parts. -/
theorem toList_parenthesized {head : String} {parts : List String} {ss : List Sexp}
    (h : parts.map String.toList = ss.map Sexp.characters) :
    (parenthesized (head :: parts)).toList = (Sexp.node head ss).characters := by
  have hjoined : (String.intercalate " " (head :: parts)).toList = head.toList ++ Sexp.allCharacters ss := by
    rw [String.toList_intercalate, List.map_cons, h, Sexp.allCharacters_eq_flatMap]
    exact intercalate_blank_cons _ _
  rw [parenthesized, String.toList_append, String.toList_append, hjoined]
  simp [Sexp.characters]

mutual

/-- The text of an expression is that of its s-expression. -/
theorem Expr.toList_text : ∀ e : Expr, e.text.toList = e.sexp.characters
  | .literal _ => rfl
  | .group e | .unary _ e => toList_parenthesized (by simp [e.toList_text])
  | .binary l _ r | .logical l _ r => toList_parenthesized (by simp [l.toList_text, r.toList_text])
  | .ternary test a b =>
    toList_parenthesized (by simp [test.toList_text, a.toList_text, b.toList_text, Sexp.characters])
  | .list items => toList_parenthesized (Expr.map_texts items)
  | .variable _ | .this | .super _ => toList_parenthesized (by simp [Sexp.characters])
  | .assign _ e => toList_parenthesized (by simp [e.toList_text, Sexp.characters])
  | .call callee arguments => toList_parenthesized (by simp [callee.toList_text, Expr.map_texts arguments])
  | .get object _ => toList_parenthesized (by simp [object.toList_text, Sexp.characters])
  | .set object _ e => toList_parenthesized (by simp [object.toList_text, e.toList_text, Sexp.characters])
  | .index object position => toList_parenthesized (by simp [object.toList_text, position.toList_text])
  | .setIndex object position e =>
    toList_parenthesized (by simp [object.toList_text, position.toList_text, e.toList_text])

/-- So are the texts of some expressions. -/
theorem Expr.map_texts : ∀ es : List Expr,
    (Expr.texts es).map String.toList = (Expr.sexps es).map Sexp.characters
  | [] => rfl
  | e :: rest => by
    rw [texts, sexps, List.map_cons, List.map_cons, e.toList_text, Expr.map_texts rest]

end

/-! ## Words in expressions -/

variable {e e' : Expr} {es es' es'' : List Expr} {l l' : Literal}

/-- A name is a word. -/
theorem IsName.isWord {name : String} (h : IsName name) : IsWord name := by
  obtain ⟨c, rest, hname, hc, hrest⟩ := h
  have hends {d : Char} (hd : endsWord d = true) : startsName d = false ∧ continuesName d = false := by
    simp only [endsWord, Bool.or_eq_true, decide_eq_true_eq] at hd
    rcases hd with (rfl | rfl) | rfl <;> decide
  refine ⟨by rw [hname]; exact List.cons_ne_nil c rest, fun d hd => Bool.eq_false_iff.2 fun hend => ?_⟩
  rw [hname] at hd
  rcases List.mem_cons.1 hd with rfl | hd
  · exact Bool.eq_false_iff.1 (hends hend).1 hc
  · exact Bool.eq_false_iff.1 (hends hend).2 (hrest d hd)

/-- The text of a number is a word. -/
theorem Number.isWord_text (x : Float) : IsWord (text x) where
  ne_empty := toList_text_ne_nil
  inside c hc := by
    have hends {d : Char} (hd : endsWord d = true) :
        ¬(d.isDigit = true ∨ d ∈ ['-', '.', 'i', 'n', 'f', 'N', 'a']) := by
      simp only [endsWord, Bool.or_eq_true, decide_eq_true_eq] at hd
      rcases hd with (rfl | rfl) | rfl <;> decide
    exact Bool.eq_false_iff.2 fun hend => hends hend (mem_text hc)

/-- The text of a number is no word of the other literals. -/
theorem Number.text_ne {x : Float} {w : String} (hw : 'l' ∈ w.toList ∨ 't' ∈ w.toList) : text x ≠ w := by
  rintro rfl
  rcases hw with hw | hw <;> exact absurd (mem_text hw) (by decide)

namespace Literal

/-- The text of a literal is a word, unless it is a string. -/
theorem isWord_text (h : ∀ s, l ≠ string s) : IsWord l.text := by
  cases l with
  | number x => exact Number.isWord_text x
  | string s => exact absurd rfl (h s)
  | boolean b => cases b <;> exact of_decide_eq_true rfl
  | nil => exact of_decide_eq_true rfl

/-- Literals with the same text are the same, unless one is a string. -/
theorem eq_of_text_eq (h : ∀ s, l ≠ string s) (h' : ∀ s, l' ≠ string s) (htext : l.text = l'.text) : l = l' := by
  -- The words of the other literals have letters that no text of a number has.
  have hboolean (x : Float) (b : Bool) : (number x).text ≠ (boolean b).text := by
    cases b
    · exact Number.text_ne (.inl (by decide))
    · exact Number.text_ne (.inr (by decide))
  have hnil (x : Float) : (number x).text ≠ nil.text := Number.text_ne (.inl (by decide))
  cases l with
  | number x =>
    cases l' with
    | number y => rw [Number.text_injective htext]
    | string s => exact absurd rfl (h' s)
    | boolean b => exact absurd htext (hboolean x b)
    | nil => exact absurd htext (hnil x)
  | string s => exact absurd rfl (h s)
  | boolean b =>
    cases l' with
    | number y => exact absurd htext.symm (hboolean y b)
    | string s => exact absurd rfl (h' s)
    | boolean b' =>
      have hb : b = b' := by revert htext; cases b <;> cases b' <;> decide
      rw [hb]
    | nil => exact absurd htext (by cases b <;> decide)
  | nil =>
    cases l' with
    | number y => exact absurd htext.symm (hnil y)
    | string s => exact absurd rfl (h' s)
    | boolean b => exact absurd htext (by cases b <;> decide)
    | nil => rfl

end Literal

/-- The sign of a binary operator is a word. -/
theorem BinaryOp.isWord_sign (op : BinaryOp) : IsWord op.sign := by
  cases op <;> exact of_decide_eq_true rfl

/-- The sign of a unary operator is a word. -/
theorem UnaryOp.isWord_sign (op : UnaryOp) : IsWord op.sign := by
  cases op <;> exact of_decide_eq_true rfl

/-- The word of a connective is one. -/
theorem LogicalOp.isWord_sign (op : LogicalOp) : IsWord op.sign := by
  cases op <;> exact of_decide_eq_true rfl

/-- A colon is a word. -/
theorem isWord_colon : IsWord ":" := by
  decide

/-- What stands in an expression itself is plain: its names are names, and it is no string. -/
def Expr.OwnPlain (e : Expr) : Prop :=
  (∀ name ∈ e.ownNames, IsName name) ∧ ∀ s, e ≠ .literal (.string s)

/-- An expression in which everything is plain. -/
def Expr.IsPlain (e : Expr) : Prop :=
  ∀ part ∈ e.parts, part.OwnPlain

/-- Expressions in which everything is plain. -/
def Expr.AllPlain (es : List Expr) : Prop :=
  ∀ part ∈ Expr.allParts es, part.OwnPlain

/-- Names in a plain expression are names. -/
theorem Expr.IsPlain.isWord {name : String} (h : e.IsPlain) (hname : name ∈ e.ownNames) : IsWord name :=
  ((h e e.mem_parts).1 name hname).isWord

/-- A plain literal is no string. -/
theorem Expr.IsPlain.ne_string (h : (literal l).IsPlain) (s : String) : l ≠ .string s := by
  rintro rfl
  exact (h _ (mem_parts _)).2 s rfl

/-- What stands in the only part of a plain expression is plain. -/
theorem Expr.plain_part (h : ∀ part ∈ e :: es, part.OwnPlain) : ∀ part ∈ es, part.OwnPlain :=
  (List.forall_mem_cons.1 h).2

/-- What stands in two parts of a plain expression is plain. -/
theorem Expr.plain_parts (h : ∀ part ∈ e :: (es ++ es'), part.OwnPlain) :
    (∀ part ∈ es, part.OwnPlain) ∧ ∀ part ∈ es', part.OwnPlain :=
  List.forall_mem_append.1 (plain_part h)

/-- What stands in three parts of a plain expression is plain. -/
theorem Expr.plain_three_parts (h : ∀ part ∈ e :: (es ++ (es' ++ es'')), part.OwnPlain) :
    (∀ part ∈ es, part.OwnPlain) ∧ (∀ part ∈ es', part.OwnPlain) ∧ ∀ part ∈ es'', part.OwnPlain :=
  (plain_parts h).imp_right List.forall_mem_append.1

mutual

/-- There are words only in the s-expression of a plain expression. -/
theorem Expr.isPlain_sexp : ∀ e : Expr, e.IsPlain → e.sexp.IsPlain
  | .literal l, h => Literal.isWord_text h.ne_string
  | .group e, h => by
    have he : e.IsPlain := plain_part h
    exact ⟨by decide, e.isPlain_sexp he, trivial⟩
  | .unary op e, h => by
    have he : e.IsPlain := plain_part h
    exact ⟨op.isWord_sign, e.isPlain_sexp he, trivial⟩
  | .binary a op b, h => by
    obtain ⟨ha, hb⟩ : a.IsPlain ∧ b.IsPlain := plain_parts h
    exact ⟨op.isWord_sign, a.isPlain_sexp ha, b.isPlain_sexp hb, trivial⟩
  | .logical a op b, h => by
    obtain ⟨ha, hb⟩ : a.IsPlain ∧ b.IsPlain := plain_parts h
    exact ⟨op.isWord_sign, a.isPlain_sexp ha, b.isPlain_sexp hb, trivial⟩
  | .ternary a b c, h => by
    obtain ⟨ha, hb, hc⟩ : a.IsPlain ∧ b.IsPlain ∧ c.IsPlain := plain_three_parts h
    exact ⟨by decide, a.isPlain_sexp ha, isWord_colon, b.isPlain_sexp hb, c.isPlain_sexp hc, trivial⟩
  | .list items, h => by
    have hitems : AllPlain items := plain_part h
    exact ⟨by decide, allPlain_sexps items hitems⟩
  | .variable name, h => ⟨by decide, h.isWord List.mem_cons_self, trivial⟩
  | .this, _ => ⟨by decide, trivial⟩
  | .super method, h => ⟨by decide, h.isWord List.mem_cons_self, trivial⟩
  | .assign target e, h => by
    have he : e.IsPlain := plain_part h
    exact ⟨by decide, h.isWord List.mem_cons_self, e.isPlain_sexp he, trivial⟩
  | .call callee arguments, h => by
    obtain ⟨hc, ha⟩ : callee.IsPlain ∧ AllPlain arguments := plain_parts h
    exact ⟨by decide, callee.isPlain_sexp hc, allPlain_sexps arguments ha⟩
  | .get object property, h => by
    have ho : object.IsPlain := plain_part h
    exact ⟨by decide, object.isPlain_sexp ho, h.isWord List.mem_cons_self, trivial⟩
  | .set object property e, h => by
    obtain ⟨ho, he⟩ : object.IsPlain ∧ e.IsPlain := plain_parts h
    exact ⟨by decide, object.isPlain_sexp ho, h.isWord List.mem_cons_self, e.isPlain_sexp he, trivial⟩
  | .index object position, h => by
    obtain ⟨ho, hp⟩ : object.IsPlain ∧ position.IsPlain := plain_parts h
    exact ⟨by decide, object.isPlain_sexp ho, position.isPlain_sexp hp, trivial⟩
  | .setIndex object position e, h => by
    obtain ⟨ho, hp, he⟩ : object.IsPlain ∧ position.IsPlain ∧ e.IsPlain := plain_three_parts h
    exact ⟨by decide, object.isPlain_sexp ho, position.isPlain_sexp hp, e.isPlain_sexp he, trivial⟩

/-- So it is in those of plain expressions. -/
theorem Expr.allPlain_sexps : ∀ es : List Expr, AllPlain es → Sexp.AllPlain (sexps es)
  | [], _ => trivial
  | e :: es, h => by
    obtain ⟨he, hes⟩ : e.IsPlain ∧ AllPlain es := List.forall_mem_append.1 h
    exact ⟨e.isPlain_sexp he, allPlain_sexps es hes⟩

end

/-! ## What is told -/

/-- Binary operators have different signs. -/
theorem BinaryOp.sign_injective : Function.Injective BinaryOp.sign := by
  intro op op' h
  cases op <;> cases op' <;> first | rfl | exact absurd h (by decide)

/-- Unary operators have different signs. -/
theorem UnaryOp.sign_injective : Function.Injective UnaryOp.sign := by
  intro op op' h
  cases op <;> cases op' <;> first | rfl | exact absurd h (by decide)

/-- Connectives have different words. -/
theorem LogicalOp.sign_injective : Function.Injective LogicalOp.sign := by
  intro op op' h
  cases op <;> cases op' <;> first | rfl | exact absurd h (by decide)

mutual

/-- Without strings in them, expressions with the same s-expression are the same. -/
theorem Expr.eq_of_sexp_eq : ∀ (e e' : Expr), e.IsPlain → e'.IsPlain → e.sexp = e'.sexp → e = e'
  | .literal l, e', h, h', heq => by
    cases e' with
    | literal l' =>
      rw [Literal.eq_of_text_eq h.ne_string h'.ne_string (Sexp.word.inj heq)]
    | _ => simp [sexp] at heq
  | .group e, e', h, h', heq => by
    cases e' with
    | group f =>
      have he : e.IsPlain := plain_part h
      have hf : f.IsPlain := plain_part h'
      have hsexp : e.sexp = f.sexp := by simpa [sexp] using heq
      rw [e.eq_of_sexp_eq f he hf hsexp]
    -- One part is also behind the sign of a unary operator, which is no `group`.
    | unary op f => cases op <;> simp [sexp, UnaryOp.sign] at heq
    | _ => simp [sexp] at heq
  | .unary op e, e', h, h', heq => by
    cases e' with
    | unary op' f =>
      have he : e.IsPlain := plain_part h
      have hf : f.IsPlain := plain_part h'
      obtain ⟨hop, hsexp⟩ : op.sign = op'.sign ∧ e.sexp = f.sexp := by simpa [sexp] using heq
      rw [UnaryOp.sign_injective hop, e.eq_of_sexp_eq f he hf hsexp]
    -- A minus between operands is told from a minus before one by the number of parts.
    | binary | logical => simp [sexp] at heq
    | _ => cases op <;> simp [sexp, UnaryOp.sign] at heq
  | .binary a op b, e', h, h', heq => by
    cases e' with
    | binary c op' d =>
      obtain ⟨ha, hb⟩ : a.IsPlain ∧ b.IsPlain := plain_parts h
      obtain ⟨hc, hd⟩ : c.IsPlain ∧ d.IsPlain := plain_parts h'
      obtain ⟨hop, hac, hbd⟩ : op.sign = op'.sign ∧ a.sexp = c.sexp ∧ b.sexp = d.sexp := by simpa [sexp] using heq
      rw [BinaryOp.sign_injective hop, a.eq_of_sexp_eq c ha hc hac, b.eq_of_sexp_eq d hb hd hbd]
    | logical c op' d => cases op <;> cases op' <;> simp [sexp, BinaryOp.sign, LogicalOp.sign] at heq
    | _ => cases op <;> simp [sexp, BinaryOp.sign] at heq
  | .logical a op b, e', h, h', heq => by
    cases e' with
    | logical c op' d =>
      obtain ⟨ha, hb⟩ : a.IsPlain ∧ b.IsPlain := plain_parts h
      obtain ⟨hc, hd⟩ : c.IsPlain ∧ d.IsPlain := plain_parts h'
      obtain ⟨hop, hac, hbd⟩ : op.sign = op'.sign ∧ a.sexp = c.sexp ∧ b.sexp = d.sexp := by simpa [sexp] using heq
      rw [LogicalOp.sign_injective hop, a.eq_of_sexp_eq c ha hc hac, b.eq_of_sexp_eq d hb hd hbd]
    | binary c op' d => cases op <;> cases op' <;> simp [sexp, BinaryOp.sign, LogicalOp.sign] at heq
    | _ => cases op <;> simp [sexp, LogicalOp.sign] at heq
  | .ternary a b c, e', h, h', heq => by
    cases e' with
    | ternary a' b' c' =>
      obtain ⟨ha, hb, hc⟩ : a.IsPlain ∧ b.IsPlain ∧ c.IsPlain := plain_three_parts h
      obtain ⟨ha', hb', hc'⟩ : a'.IsPlain ∧ b'.IsPlain ∧ c'.IsPlain := plain_three_parts h'
      obtain ⟨haa, hbb, hcc⟩ : a.sexp = a'.sexp ∧ b.sexp = b'.sexp ∧ c.sexp = c'.sexp := by simpa [sexp] using heq
      rw [a.eq_of_sexp_eq a' ha ha' haa, b.eq_of_sexp_eq b' hb hb' hbb, c.eq_of_sexp_eq c' hc hc' hcc]
    | _ => simp [sexp] at heq
  | .list items, e', h, h', heq => by
    cases e' with
    | list items' =>
      have hi : AllPlain items := plain_part h
      have hi' : AllPlain items' := plain_part h'
      have hsexps : sexps items = sexps items' := by simpa [sexp] using heq
      rw [eq_of_sexps_eq items items' hi hi' hsexps]
    | unary op | binary _ op | logical _ op =>
      cases op <;> simp [sexp, UnaryOp.sign, BinaryOp.sign, LogicalOp.sign] at heq
    | _ => simp [sexp] at heq
  | .variable name, e', h, h', heq => by
    cases e' with
    | «variable» name' =>
      have hname : name = name' := by simpa [sexp] using heq
      rw [hname]
    | unary op => cases op <;> simp [sexp, UnaryOp.sign] at heq
    | _ => simp [sexp] at heq
  | .this, e', h, h', heq => by
    cases e' with
    | this => rfl
    | _ => simp [sexp] at heq
  | .super method, e', h, h', heq => by
    cases e' with
    | super method' =>
      have hmethod : method = method' := by simpa [sexp] using heq
      rw [hmethod]
    | unary op => cases op <;> simp [sexp, UnaryOp.sign] at heq
    | _ => simp [sexp] at heq
  | .assign target e, e', h, h', heq => by
    cases e' with
    | assign target' f =>
      have he : e.IsPlain := plain_part h
      have hf : f.IsPlain := plain_part h'
      obtain ⟨htarget, hsexp⟩ : target = target' ∧ e.sexp = f.sexp := by simpa [sexp] using heq
      rw [htarget, e.eq_of_sexp_eq f he hf hsexp]
    | binary _ op | logical _ op => cases op <;> simp [sexp, BinaryOp.sign, LogicalOp.sign] at heq
    | _ => simp [sexp] at heq
  | .call callee arguments, e', h, h', heq => by
    cases e' with
    | call callee' arguments' =>
      obtain ⟨hc, ha⟩ : callee.IsPlain ∧ AllPlain arguments := plain_parts h
      obtain ⟨hc', ha'⟩ : callee'.IsPlain ∧ AllPlain arguments' := plain_parts h'
      obtain ⟨hcallee, harguments⟩ : callee.sexp = callee'.sexp ∧ sexps arguments = sexps arguments' := by
        simpa [sexp] using heq
      rw [callee.eq_of_sexp_eq callee' hc hc' hcallee, eq_of_sexps_eq arguments arguments' ha ha' harguments]
    | unary op | binary _ op | logical _ op =>
      cases op <;> simp [sexp, UnaryOp.sign, BinaryOp.sign, LogicalOp.sign] at heq
    | _ => simp [sexp] at heq
  | .get object property, e', h, h', heq => by
    cases e' with
    | get object' property' =>
      have ho : object.IsPlain := plain_part h
      have ho' : object'.IsPlain := plain_part h'
      obtain ⟨hobject, hproperty⟩ : object.sexp = object'.sexp ∧ property = property' := by simpa [sexp] using heq
      rw [hproperty, object.eq_of_sexp_eq object' ho ho' hobject]
    | binary _ op | logical _ op => cases op <;> simp [sexp, BinaryOp.sign, LogicalOp.sign] at heq
    | _ => simp [sexp] at heq
  | .set object property e, e', h, h', heq => by
    cases e' with
    | set object' property' f =>
      obtain ⟨ho, he⟩ : object.IsPlain ∧ e.IsPlain := plain_parts h
      obtain ⟨ho', hf⟩ : object'.IsPlain ∧ f.IsPlain := plain_parts h'
      obtain ⟨hobject, hproperty, hsexp⟩ : object.sexp = object'.sexp ∧ property = property' ∧ e.sexp = f.sexp := by
        simpa [sexp] using heq
      rw [hproperty, object.eq_of_sexp_eq object' ho ho' hobject, e.eq_of_sexp_eq f he hf hsexp]
    | _ => simp [sexp] at heq
  | .index object position, e', h, h', heq => by
    cases e' with
    | index object' position' =>
      obtain ⟨ho, hp⟩ : object.IsPlain ∧ position.IsPlain := plain_parts h
      obtain ⟨ho', hp'⟩ : object'.IsPlain ∧ position'.IsPlain := plain_parts h'
      obtain ⟨hobject, hposition⟩ : object.sexp = object'.sexp ∧ position.sexp = position'.sexp := by
        simpa [sexp] using heq
      rw [object.eq_of_sexp_eq object' ho ho' hobject, position.eq_of_sexp_eq position' hp hp' hposition]
    | binary _ op | logical _ op => cases op <;> simp [sexp, BinaryOp.sign, LogicalOp.sign] at heq
    | _ => simp [sexp] at heq
  | .setIndex object position e, e', h, h', heq => by
    cases e' with
    | setIndex object' position' f =>
      obtain ⟨ho, hp, he⟩ : object.IsPlain ∧ position.IsPlain ∧ e.IsPlain := plain_three_parts h
      obtain ⟨ho', hp', hf⟩ : object'.IsPlain ∧ position'.IsPlain ∧ f.IsPlain := plain_three_parts h'
      obtain ⟨hobject, hposition, hsexp⟩ :
          object.sexp = object'.sexp ∧ position.sexp = position'.sexp ∧ e.sexp = f.sexp := by
        simpa [sexp] using heq
      rw [object.eq_of_sexp_eq object' ho ho' hobject, position.eq_of_sexp_eq position' hp hp' hposition,
        e.eq_of_sexp_eq f he hf hsexp]
    | _ => simp [sexp] at heq

/-- So are lists of expressions. -/
theorem Expr.eq_of_sexps_eq : ∀ (es es' : List Expr), AllPlain es → AllPlain es' →
    sexps es = sexps es' → es = es'
  | [], [], _, _, _ => rfl
  | [], _ :: _, _, _, heq => absurd heq (by simp [sexps])
  | _ :: _, [], _, _, heq => absurd heq (by simp [sexps])
  | e :: es, f :: fs, h, h', heq => by
    obtain ⟨he, hes⟩ : e.IsPlain ∧ AllPlain es := List.forall_mem_append.1 h
    obtain ⟨hf, hfs⟩ : f.IsPlain ∧ AllPlain fs := List.forall_mem_append.1 h'
    obtain ⟨hfirst, hothers⟩ : e.sexp = f.sexp ∧ sexps es = sexps fs := by simpa [sexps] using heq
    rw [e.eq_of_sexp_eq f he hf hfirst, eq_of_sexps_eq es fs hes hfs hothers]

end

namespace Expr

/-- No string stands in an expression. -/
def HasNoString (e : Expr) : Prop :=
  ∀ s, .literal (.string s) ∉ e.parts

/-- What is read is plain, if there is no string in it. -/
theorem IsRead.isPlain (he : e.IsRead) (hstring : e.HasNoString) : e.IsPlain :=
  fun part hpart => ⟨isName_of_isRead he part hpart, fun s hs => hstring s (hs ▸ hpart)⟩

/-- Plain expressions with the same text are the same. -/
theorem IsPlain.eq_of_text_eq (he : e.IsPlain) (he' : e'.IsPlain) (htext : e.text = e'.text) : e = e' := by
  have hcharacters : e.sexp.characters ++ [] = e'.sexp.characters ++ [] := by
    rw [← toList_text, ← toList_text, htext]
  obtain ⟨hsexp, -⟩ := Sexp.characters_inj (e.isPlain_sexp he) (e'.isPlain_sexp he') Sexp.follows_nil Sexp.follows_nil
    hcharacters
  exact e.eq_of_sexp_eq e' he he' hsexp

/-- The text of an expression tells which expression it is, among those that are read and have no string in them. -/
theorem text_eq_iff (he : e.IsRead) (he' : e'.IsRead) (hstring : e.HasNoString) (hstring' : e'.HasNoString) :
    e.text = e'.text ↔ e = e' :=
  ⟨(he.isPlain hstring).eq_of_text_eq (he'.isPlain hstring'), congrArg text⟩

/-- A difference with a negative number and the negative of a difference have different texts. -/
theorem text_eq_iff_minus :
    let difference := binary (unary .negative (.variable "a")) .subtract (.variable "b")
    let negative := unary .negative (group (binary (.variable "a") .subtract (.variable "b")))
    difference.IsRead ∧ negative.IsRead ∧ difference.HasNoString ∧ negative.HasNoString ∧
      difference.text ≠ negative.text := by
  intro difference negative
  have hread {text : String} {e : Expr} (h : Program.parse text = .ok [.expression e]) : e.IsRead :=
    ⟨text, _, h, List.mem_append_left _ e.mem_parts⟩
  have hdifference : difference.IsRead := hread ((Program.parse_eq "-a - b;").trans rfl)
  have hnegative : negative.IsRead := hread ((Program.parse_eq "-(a - b);").trans rfl)
  have hstring : difference.HasNoString := by simp [HasNoString, difference, parts]
  have hstring' : negative.HasNoString := by simp [HasNoString, negative, parts]
  have hne : difference ≠ negative := nofun
  exact ⟨hdifference, hnegative, hstring, hstring', mt (text_eq_iff hdifference hnegative hstring hstring').1 hne⟩

/-- With strings, a text may be that of two expressions. -/
example : (literal (.string "(ident a)")).text = (Expr.variable "a").text := by decide

end Expr

end Lox
