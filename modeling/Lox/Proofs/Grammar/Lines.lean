import Mathlib.Data.List.Forall2
import Lox.Proofs.Grammar.Parse
import Lox.Proofs.Token.Lines

/-!
# Programs one below the other

The declarations of two programs, one after the other, are the declarations of a program; no production looks behind the
last declaration. As scanning starts afresh on a new line, two texts of programs with the end of a line between them are
read as the one program followed by the other (`parse_append_newline`), and so are any number of them
(`parse_intercalate`).
-/

namespace Lox.Grammar

/-! ## Declarations -/

namespace Derivation

/-- The declarations of one derivation, then those of another. -/
def append : Derivation .declarations → Derivation .declarations → Derivation .declarations
  | noDeclaration, others => others
  | declarations first rest, others => declarations first (rest.append others)

/-- What they derive stands one behind the other. -/
theorem tokens_append : ∀ body others : Derivation .declarations,
    (body.append others).tokens = body.tokens ++ others.tokens
  | noDeclaration, others => by rw [append, tokens, List.nil_append]
  | declarations first rest, others => by rw [append, tokens, tokens, tokens_append rest others, List.append_assoc]

/-- What they mean is run one after the other. -/
theorem tree_append : ∀ body others : Derivation .declarations,
    (body.append others).tree = (body.tree ++ others.tree : List Stmt)
  | noDeclaration, others => by rw [append, tree, List.nil_append]
  | declarations first rest, others => by rw [append, tree, tree, tree_append rest others, List.cons_append]

end Derivation

/-! ## Texts -/

variable {text above below : String} {p q : Program}

/-- The items of a text hold the tokens of declarations, and nothing else. -/
def Derives (text : String) (body : Derivation .declarations) : Prop :=
  (scanItems text).map Item.content = body.tokens.map Except.ok

/-- A text is read as a program if declarations derive it that mean the program. -/
theorem parse_of_derives {body : Derivation .declarations} (h : Derives text body) :
    Program.parse text = .ok body.tree := by
  rw [parse_eq_ok_iff_reads]
  have hspell : (TokenStream.ofText text).Spells body.tokens ⟨[], endPosition text⟩ :=
    TokenStream.spells_iff.2 ⟨scanItems text, (List.append_nil _).symm, rfl, h⟩
  have htries := (complete body).2 (enoughSteps (TokenStream.ofText text).length) _ _ hspell rfl
  exact ⟨_, htries.resolve_left (ends_program (lt_enoughSteps text)).ne_starved⟩

/-- Only such a text is read as a program. -/
theorem exists_derives (h : Program.parse text = .ok p) : ∃ body, Derives text body ∧ body.tree = p := by
  obtain ⟨hok, d, htokens, rfl⟩ := derivation_of_parse h
  cases d with
  | program body =>
    rw [tokens_scan] at htokens
    have hbody : body.tokens = (scanItems text).filterMap Item.token? := List.append_cancel_right htokens
    refine ⟨body, ?_, rfl⟩
    rw [Derives, hbody]
    exact map_content_eq fun item hitem => hok item (mem_scan_iff.2 (.inl hitem))

/-- A text that is derived leaves no string open. -/
theorem Derives.isClosed {body : Derivation .declarations} (h : Derives text body) : IsClosed (scanItems text) := by
  intro item hitem hopen
  have hmem : item.content ∈ body.tokens.map Except.ok := by
    rw [← h]
    exact List.mem_map_of_mem hitem
  obtain ⟨t, -, ht⟩ := List.mem_map.1 hmem
  exact nomatch ht.trans hopen

/-- The declarations of two texts derive the one above the other. -/
theorem Derives.append_newline {body others : Derivation .declarations} (h : Derives above body)
    (h' : Derives below others) : Derives (above ++ "\n" ++ below) (body.append others) := by
  have hdown : ((scanItems below).map (Item.down (linesAbove above))).map Item.content =
      (scanItems below).map Item.content := by
    rw [List.map_map]
    rfl
  rw [Derives, scanItems_append_newline below h.isClosed, List.map_append, hdown, h, h', Derivation.tokens_append,
    List.map_append]

/-- Two programs, one below the other, are read as one. -/
theorem parse_append_newline (h : Program.parse above = .ok p) (h' : Program.parse below = .ok q) :
    Program.parse (above ++ "\n" ++ below) = .ok (p ++ q) := by
  obtain ⟨body, hbody, rfl⟩ := exists_derives h
  obtain ⟨others, hothers, rfl⟩ := exists_derives h'
  rw [parse_of_derives (hbody.append_newline hothers), Derivation.tree_append]

/-- So are any number of programs. -/
theorem parse_intercalate {texts : List String} {programs : List Program}
    (h : List.Forall₂ (fun text p => Program.parse text = .ok p) texts programs) :
    Program.parse (String.intercalate "\n" texts) = .ok programs.flatten := by
  induction h with
  | nil => exact (Program.parse_eq _).trans rfl
  | @cons text p texts programs hfirst hothers ih =>
    cases hothers with
    | nil => simpa using hfirst
    | cons hsecond _ =>
      rw [String.intercalate_cons_cons]
      exact parse_append_newline hfirst ih

end Lox.Grammar
