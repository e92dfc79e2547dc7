import Lox.Proofs.Token.Scanner

/-!
# A text and its pieces

A text is divided in one way only into pieces each of which is the longest at its place (`IsDivided.unique`), and
scanning goes along this division: of each piece that is a slice it makes an item, at the position of the slice, and
passes over each piece that separates (`scan_exact`).
-/

namespace Lox

/-! ## Divisions -/

/-- Pieces of a text each of which is the longest at its place. -/
inductive IsDivided : List (List Char) → Prop
  | nil : IsDivided []
  | cons {piece : List Char} {pieces : List (List Char)} (hpiece : IsLongest piece pieces.flatten)
      (hpieces : IsDivided pieces) : IsDivided (piece :: pieces)

/-- The items of a text that starts at a position and is divided into pieces. An item stands where its slice starts. -/
inductive Yields : Position → List (List Char) → List Item → Prop
  | nil (p : Position) : Yields p [] []
  | separator {p : Position} {piece : List Char} {pieces : List (List Char)} {items : List Item}
      (hpiece : Separator piece) (hpieces : Yields (p.past piece) pieces items) : Yields p (piece :: pieces) items
  | slice {p : Position} {piece : List Char} {pieces : List (List Char)} {items : List Item}
      {content : Except ScanError Token} (hpiece : Slice piece content)
      (hpieces : Yields (p.past piece) pieces items) : Yields p (piece :: pieces) (⟨p, content⟩ :: items)

variable {p : Position} {pieces pieces' : List (List Char)} {items items' : List Item}

/-- There is one division of a text. -/
theorem IsDivided.unique (h : IsDivided pieces) (h' : IsDivided pieces') (htext : pieces.flatten = pieces'.flatten) :
    pieces = pieces' := by
  induction h generalizing pieces' with
  | nil =>
    cases h' with
    | nil => rfl
    | cons hpiece =>
      obtain ⟨c, rest, rfl⟩ := hpiece.isPiece.exists_cons
      exact nomatch htext
  | cons hpiece _ ih =>
    cases h' with
    | nil =>
      obtain ⟨c, rest, rfl⟩ := hpiece.isPiece.exists_cons
      exact nomatch htext
    | cons hpiece' hpieces' =>
      obtain ⟨rfl, hrest⟩ := hpiece.unique hpiece' htext
      rw [ih hpieces' hrest]

/-- Each piece of a division ends where it has to. -/
theorem IsDivided.bounded (h : IsDivided pieces) {before after : List (List Char)} {piece : List Char}
    (hsplit : pieces = before ++ piece :: after) : Bounded piece after.flatten := by
  induction before generalizing pieces with
  | nil =>
    subst hsplit
    cases h with
    | cons hpiece => exact hpiece.bounded
  | cons first before ih =>
    subst hsplit
    cases h with
    | cons _ hpieces => exact ih hpieces rfl

/-- The items of a division are the only ones. -/
theorem Yields.unique (h : Yields p pieces items) (h' : Yields p pieces items') : items = items' := by
  induction h generalizing items' with
  | nil =>
    cases h' with
    | nil => rfl
  | separator hpiece _ ih =>
    cases h' with
    | separator _ hpieces' => exact ih hpieces'
    | slice hslice => exact absurd hslice hpiece.not_slice
  | slice hpiece _ ih =>
    cases h' with
    | separator hseparator => exact absurd hpiece hseparator.not_slice
    | slice hpiece' hpieces' => rw [hpiece.unique hpiece', ih hpieces']

/-- No item of a division is an end mark. -/
theorem Yields.content_ne_eof (h : Yields p pieces items) : ∀ item ∈ items, item.content ≠ .ok .eof := by
  induction h with
  | nil => exact nofun
  | separator _ _ ih => exact ih
  | slice hpiece _ ih =>
    intro item hitem
    rcases List.mem_cons.1 hitem with rfl | hitem
    · rintro rfl
      cases hpiece with
      | token hlexeme => cases hlexeme
    · exact ih item hitem

/-! ## Scanning -/

/-- Scanning yields the items of the division. -/
theorem exists_yields_scanFrom (p : Position) (cs : List Char) :
    ∃ pieces, pieces.flatten = cs ∧ IsDivided pieces ∧ Yields p pieces (scanFrom p 0 cs) := by
  induction hlength : cs.length using Nat.strong_induction_on generalizing p cs with
  | _ n ih =>
    cases cs with
    | nil => exact ⟨[], rfl, .nil, .nil p⟩
    | cons c rest =>
      obtain ⟨following, hrest⟩ := pieceRest_prefix c rest
      have hshorter : following.length < n := by
        rw [← hlength, List.length_cons, ← hrest, List.length_append]
        omega
      obtain ⟨pieces, rfl, hdivided, hyields⟩ := ih _ hshorter (p.past (c :: pieceRest c rest)) following rfl
      refine ⟨(c :: pieceRest c rest) :: pieces, ?_, .cons (isLongest_pieceRest hrest.symm) hdivided, ?_⟩
      · rw [List.flatten_cons, List.cons_append, hrest]
      · rw [scanFrom_cons p c hrest]
        cases hkind : isBlank c || startsComment c rest with
        | true => exact .separator (separator_pieceRest hkind) hyields
        | false => exact .slice (slice_pieceRest hkind) hyields

/-- The end mark is not among the items of a text. -/
theorem content_ne_eof_of_mem_scanItems {text : String} {item : Item} (hitem : item ∈ scanItems text) :
    item.content ≠ .ok .eof := by
  obtain ⟨pieces, -, -, hyields⟩ := exists_yields_scanFrom {} text.toList
  exact hyields.content_ne_eof item hitem

/-- Scanning is exact. A text has one division into pieces each of which is the longest at its place; each ends where it
has to. The items of this division are determined, a slice yields one thing only, and they are what scanning yields,
followed by the one end mark at the end of the text. -/
theorem scan_exact (text : String) :
    (∃ pieces items,
      pieces.flatten = text.toList ∧ IsDivided pieces ∧ Yields {} pieces items ∧
      scan text = items ++ [Item.eof (Position.past {} text.toList)] ∧
      (∀ item ∈ items, item.content ≠ .ok .eof) ∧
      (∀ pieces', pieces'.flatten = text.toList → IsDivided pieces' → pieces' = pieces) ∧
      (∀ items', Yields {} pieces items' → items' = items) ∧
      ∀ before piece after, pieces = before ++ piece :: after → Bounded piece after.flatten) ∧
    ∀ piece content content', Slice piece content → Slice piece content' → content = content' := by
  refine ⟨?_, fun _ _ _ h h' => h.unique h'⟩
  obtain ⟨pieces, hflatten, hdivided, hyields⟩ := exists_yields_scanFrom {} text.toList
  refine ⟨pieces, scanItems text, hflatten, hdivided, hyields, scan_eq text, hyields.content_ne_eof, ?_, ?_, ?_⟩
  · exact fun pieces' hflatten' hdivided' => hdivided'.unique hdivided (hflatten'.trans hflatten.symm)
  · exact fun items' hyields' => hyields'.unique hyields
  · exact fun before piece after hsplit => hdivided.bounded hsplit

end Lox
