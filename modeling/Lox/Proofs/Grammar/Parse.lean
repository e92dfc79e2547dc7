import Mathlib.Tactic.SplitIfs
import Lox.Proofs.Grammar.Soundness.Statement
import Lox.Proofs.Grammar.Uniqueness.Statement
import Lox.Proofs.Syntax.Lookahead

/-!
# Reading a text

A text is read as a program just when it has no scan error and its tokens are derived from the grammar; the program is
then the tree of the derivation, and there is no other derivation (`parse_eq_ok_iff`).
-/

namespace Lox

open Lox.Parser Lox.TokenStream

/-! ## The tokens of a text -/

/-- Items that hold tokens hold those that are listed. -/
theorem map_content_eq {items : List Item} (h : ∀ item ∈ items, ∃ t, item.content = .ok t) :
    items.map Item.content = (items.filterMap Item.token?).map Except.ok := by
  induction items with
  | nil => rfl
  | cons item items ih =>
    obtain ⟨t, ht⟩ := h item List.mem_cons_self
    have hothers := ih fun other hother => h other (List.mem_cons_of_mem _ hother)
    simp [Item.token?, ht, hothers]

namespace TokenStream

/-- A stream spells the tokens that its items hold. -/
theorem spells_iff {s rest : TokenStream} {ts : List Token} :
    s.Spells ts rest ↔ ∃ items, s.upcoming = items ++ rest.upcoming ∧ rest.ending = s.ending ∧
      items.map Item.content = ts.map Except.ok := by
  induction ts generalizing s with
  | nil =>
    constructor
    · rintro rfl
      exact ⟨[], rfl, rfl, rfl⟩
    · rintro ⟨items, hs, hending, hitems⟩
      obtain rfl := List.map_eq_nil_iff.1 hitems
      obtain ⟨upcoming, ending⟩ := s
      obtain ⟨upcoming', ending'⟩ := rest
      obtain rfl : upcoming = upcoming' := hs
      obtain rfl : ending' = ending := hending
      rfl
  | cons t ts ih =>
    constructor
    · rintro ⟨⟨item, items, hs, hitem⟩, hspell⟩
      obtain ⟨others, hothers, hending, hcontent⟩ := ih.1 hspell
      simp only [advance, hs, List.tail_cons] at hothers
      exact ⟨item :: others, by rw [hs, hothers]; rfl, hending, by simp [hitem, hcontent]⟩
    · rintro ⟨items, hs, hending, hcontent⟩
      cases items with
      | nil => exact absurd hcontent (by simp)
      | cons item items =>
        obtain ⟨hitem, hitems⟩ := List.cons.inj hcontent
        refine ⟨⟨item, items ++ rest.upcoming, hs, hitem⟩, ih.2 ⟨items, ?_, hending, hitems⟩⟩
        simp [advance, hs]

/-- A stream without an end mark among its items is at its end only if nothing is left. -/
theorem upcoming_eq_nil_of_isAtEof {s : TokenStream} (h : s.isAtEof = true)
    (hitems : ∀ item ∈ s.upcoming, item.content ≠ .ok .eof) : s.upcoming = [] := by
  cases hs : s.upcoming with
  | nil => rfl
  | cons item items =>
    have hitem := hitems item (by rw [hs]; exact List.mem_cons_self)
    simp only [isAtEof, peek, hs, List.head?_cons, Option.getD_some, Item.token?] at h
    split at h
    · rename_i t ht
      cases t with
      | eof => exact absurd ht hitem
      | _ => exact absurd h Bool.false_ne_true
    · exact absurd h Bool.false_ne_true

end TokenStream

namespace Grammar

variable {n : Nat} {s rest : TokenStream}

/-! ## Programs -/

/-- A program that is read, with steps enough, is derived to the end of the stream. -/
theorem derived_program : ∀ {n : Nat} {s : TokenStream} {p : Program} {rest : TokenStream},
    Reads (program n) s p rest → 20 * s.length + 13 < n →
    ∃ d : Derivation .declarations, d.tree = p ∧ s.Spells d.tokens rest ∧ rest.isAtEof = true
  | 0, _, _, _, hread, _ => absurd hread not_reads_starve
  | n + 1, s, p, rest, hread, hn => by
    rw [program] at hread
    obtain ⟨ended, mid, hended, hafter⟩ := reads_bind.1 hread
    obtain ⟨hatEof, rfl⟩ := reads_atEof.1 hended
    cases ended with
    | true =>
      obtain ⟨rfl, rfl⟩ := reads_pure.1 hafter
      exact ⟨.noDeclaration, rfl, rfl, hatEof.symm⟩
    | false =>
      have hends : Ends (declaration n) mid mid.length := ends_declaration (by omega)
      obtain ⟨first?, mid', hattempt, hothers⟩ := reads_bind.1 hafter
      unfold Reads attempt at hattempt
      cases hdeclaration : declaration n mid with
      | ok first mid₁ reports =>
        rw [hdeclaration] at hattempt
        obtain ⟨rfl, rfl, rfl⟩ := ParsedOn.ok.inj hattempt
        -- The declaration has consumed something, so that there are steps enough for the others.
        have hlength : mid₁.length < mid.length := by
          rw [Ends, hdeclaration] at hends
          exact hends
        obtain ⟨others, mid₂, hprogram, hend⟩ := reads_bind.1 hothers
        obtain ⟨rfl, rfl⟩ := reads_pure.1 hend
        obtain ⟨d, rfl, hd⟩ := (soundStatements n).declaration hdeclaration
        obtain ⟨ds, rfl, hds, heof⟩ := derived_program hprogram (by omega)
        exact ⟨.declarations d ds, rfl, spells_append.2 ⟨mid₁, hd, hds⟩, heof⟩
      | panic mid₁ reports =>
        -- A panic has reported something, so that what is read after it is not read without a report.
        rw [hdeclaration] at hattempt
        obtain ⟨-, rfl, rfl⟩ := ParsedOn.ok.inj hattempt
        exact absurd hdeclaration hends.ne_panic
      | starved => exact absurd hdeclaration hends.ne_starved

/-- A text is read as a program if its stream is. -/
theorem parse_eq_ok_iff_reads {text : String} {p : Program} :
    Program.parse text = .ok p ↔
      ∃ rest, Reads (program (enoughSteps (ofText text).length)) (ofText text) p rest := by
  have hlength : (ofText text).length = (scanItems text).length := rfl
  rw [Program.parse_eq, hlength]
  unfold Reads
  cases program (enoughSteps (scanItems text).length) (ofText text) with
  | ok p' rest reports =>
    cases reports with
    | nil => simp [ParsedOn.verdict]
    | cons report reports => simp [ParsedOn.verdict]
  | panic rest reports => simp [ParsedOn.verdict]
  | starved => simp [ParsedOn.verdict]

/-- Behind the tokens of a text stands the end mark. -/
theorem tokens_scan (text : String) :
    (scan text).filterMap Item.token? = (scanItems text).filterMap Item.token? ++ [.eof] := by
  simp [scan_eq, Item.eof, Item.token?]

/-- There are steps enough to read a text. -/
theorem lt_enoughSteps (text : String) : 20 * (ofText text).length + 13 < enoughSteps (ofText text).length := by
  unfold enoughSteps
  omega

/-- A text that is read as a program has no scan error, and the program is derived from its tokens. -/
theorem derivation_of_parse {text : String} {p : Program} (h : Program.parse text = .ok p) :
    (∀ item ∈ scan text, ∃ t, item.content = .ok t) ∧
      ∃ d : Derivation .program, d.tokens = (scan text).filterMap Item.token? ∧ d.tree = p := by
  obtain ⟨rest, hread⟩ := parse_eq_ok_iff_reads.1 h
  obtain ⟨body, rfl, hspell, heof⟩ := derived_program hread (lt_enoughSteps text)
  obtain ⟨items, hitems, -, hcontent⟩ := spells_iff.1 hspell
  -- The end that was reached is that of the stream, as no scanned item is an end mark.
  have hnil : rest.upcoming = [] := by
    refine upcoming_eq_nil_of_isAtEof heof fun item hitem => ?_
    have hmem : item ∈ scanItems text := by
      show item ∈ (ofText text).upcoming
      rw [hitems]
      exact List.mem_append_right _ hitem
    exact content_ne_eof_of_mem_scanItems hmem
  rw [hnil, List.append_nil] at hitems
  obtain rfl : scanItems text = items := hitems
  -- Every item has been spelled, and so none of them is a scan error.
  have hok : ∀ item ∈ scanItems text, ∃ t, item.content = .ok t := by
    intro item hitem
    have hmem : item.content ∈ body.tokens.map Except.ok := by
      rw [← hcontent]
      exact List.mem_map_of_mem hitem
    obtain ⟨t, -, ht⟩ := List.mem_map.1 hmem
    exact ⟨t, ht.symm⟩
  refine ⟨fun item hitem => ?_, .program body, ?_, rfl⟩
  · rcases mem_scan_iff.1 hitem with hitem | rfl
    · exact hok item hitem
    · exact ⟨.eof, rfl⟩
  · rw [map_content_eq hok] at hcontent
    rw [tokens_scan, (List.map_inj_right fun _ _ => Except.ok.inj).1 hcontent]
    rfl

/-- A text is read as a program just when it has no scan error and its tokens, the end mark with them, are derived from
the grammar. There is then one derivation only, and the program is its tree. -/
theorem parse_eq_ok_iff (text : String) (p : Program) :
    Program.parse text = .ok p ↔
      (∀ item ∈ scan text, ∃ t, item.content = .ok t) ∧
        ∃ d : Derivation .program, d.tokens = (scan text).filterMap Item.token? ∧ d.tree = p ∧
          ∀ d' : Derivation .program, d'.tokens = (scan text).filterMap Item.token? → d' = d := by
  constructor
  · intro h
    obtain ⟨hok, d, htokens, htree⟩ := derivation_of_parse h
    exact ⟨hok, d, htokens, htree, fun d' hd' => d'.unique_program d (hd'.trans htokens.symm)⟩
  · -- What is derived is read unless steps are lacking, and they are not.
    rintro ⟨hok, d, htokens, rfl, -⟩
    rw [parse_eq_ok_iff_reads]
    cases d with
    | program body =>
      rw [tokens_scan] at htokens
      have hbody : body.tokens = (scanItems text).filterMap Item.token? := List.append_cancel_right htokens
      have hspell : (ofText text).Spells body.tokens ⟨[], (ofText text).ending⟩ := by
        refine spells_iff.2 ⟨scanItems text, (List.append_nil _).symm, rfl, ?_⟩
        rw [hbody]
        exact map_content_eq fun item hitem => hok item (mem_scan_iff.2 (.inl hitem))
      have htries := (complete body).2 (enoughSteps (ofText text).length) _ _ hspell rfl
      exact ⟨_, htries.resolve_left (ends_program (lt_enoughSteps text)).ne_starved⟩

end Grammar

end Lox
