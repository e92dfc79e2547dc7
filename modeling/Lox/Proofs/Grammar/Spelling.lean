import Lox.Syntax.Parser

/-!
# Streams that spell tokens

`Spells` says which tokens a stream starts with and what follows them. For each of the parsers from which all others are
made, this module says when it succeeds without a report, in terms of the next token alone.
-/

namespace Lox

namespace TokenStream

/-- The next item is a token, and this one. The end mark does not count. -/
def Starts (s : TokenStream) (t : Token) : Prop :=
  ∃ item items, s.upcoming = item :: items ∧ item.content = .ok t

/-- The stream starts with some tokens, and `rest` is what follows them. -/
def Spells (s : TokenStream) : List Token → TokenStream → Prop
  | [], rest => rest = s
  | t :: ts, rest => s.Starts t ∧ s.advance.Spells ts rest

variable {s mid rest : TokenStream} {t t' : Token} {ts us : List Token}

/-- A stream starts with one token only. -/
theorem Starts.unique (h : s.Starts t) (h' : s.Starts t') : t' = t := by
  obtain ⟨item, items, hs, hitem⟩ := h
  obtain ⟨item', items', hs', hitem'⟩ := h'
  rw [hs] at hs'
  obtain ⟨rfl, rfl⟩ := List.cons.inj hs'
  rw [hitem] at hitem'
  exact (Except.ok.inj hitem').symm

/-- The token with which a stream starts is the one that is next. -/
theorem Starts.token?_peek (h : s.Starts t) : s.peek.token? = some t := by
  obtain ⟨item, items, hs, hitem⟩ := h
  simp [peek, hs, Item.token?, hitem]

/-- The next token is the end mark, or the stream starts with it. -/
theorem starts_of_token?_peek (h : s.peek.token? = some t) (ht : t ≠ .eof) : s.Starts t := by
  cases hs : s.upcoming with
  | nil =>
    rw [peek, hs] at h
    exact absurd (Option.some.inj h).symm ht
  | cons item items =>
    simp only [peek, hs, List.head?_cons, Option.getD_some, Item.token?] at h
    split at h
    · rename_i t' ht'
      obtain rfl := Option.some.inj h
      exact ⟨item, items, hs, ht'⟩
    · exact absurd h (by simp)

/-- A stream that starts with a token is not at its end. -/
theorem Starts.isAtEof_eq_false (h : s.Starts t) (ht : t.isEof = false) : s.isAtEof = false := by
  simp [isAtEof, h.token?_peek, ht]

/-- Whether the next token has a property that the end mark lacks. -/
theorem any_token?_peek {p : Token → Bool} (hp : p .eof = false) :
    s.peek.token?.any p = true ↔ ∃ t, s.Starts t ∧ p t = true := by
  constructor
  · intro h
    obtain ⟨t, ht, hpt⟩ := (Option.any_eq_true p _).1 h
    refine ⟨t, starts_of_token?_peek ht ?_, hpt⟩
    rintro rfl
    exact absurd hpt (by simp [hp])
  · rintro ⟨t, ht, hpt⟩
    simp [ht.token?_peek, hpt]

/-- What spells two pieces spells the one and then the other. -/
theorem spells_append : s.Spells (ts ++ us) rest ↔ ∃ mid, s.Spells ts mid ∧ mid.Spells us rest := by
  induction ts generalizing s with
  | nil => simp [Spells]
  | cons t ts ih => simp only [List.cons_append, Spells, ih, and_assoc, exists_and_left]

end TokenStream

namespace Token

theorem isSymbol_iff {symbol : Symbol} {t : Token} : t.isSymbol symbol = true ↔ t = .symbol symbol := by
  cases t <;> simp [isSymbol]

theorem isKeyword_iff {keyword : Keyword} {t : Token} : t.isKeyword keyword = true ↔ t = .keyword keyword := by
  cases t <;> simp [isKeyword]

end Token

namespace Parser

open TokenStream

variable {α β : Type} {p q : Parser α} {f : α → Parser β} {s mid rest : TokenStream} {a a' : α} {b : β}
  {symbol : Symbol} {keyword : Keyword} {fault : Fault}

/-! ## Success without a report -/

/-- The parser reads `a` from the start of the stream, reports nothing, and leaves `rest`. -/
def Reads (p : Parser α) (s : TokenStream) (a : α) (rest : TokenStream) : Prop :=
  p s = .ok a rest []

/-- Nothing is read for what is known already. -/
theorem reads_pure : Reads (pure a') s a rest ↔ a = a' ∧ rest = s := by
  constructor
  · intro h
    have h : ParsedOn.ok a' s [] = .ok a rest [] := h
    obtain ⟨rfl, rfl, -⟩ := ParsedOn.ok.inj h
    exact ⟨rfl, rfl⟩
  · rintro ⟨rfl, rfl⟩
    rfl

/-- Two constructs are read one after the other. -/
theorem reads_bind : Reads (p >>= f) s b rest ↔ ∃ a mid, Reads p s a mid ∧ Reads (f a) mid b rest := by
  show Parser.bind p f s = _ ↔ _
  unfold Parser.bind Reads
  cases hp : p s with
  | ok a mid reports =>
    constructor
    · intro h
      have h : (f a mid).after reports = .ok b rest [] := h
      cases hf : f a mid with
      | ok b' rest' reports' =>
        rw [hf, ParsedOn.after] at h
        obtain ⟨rfl, rfl, hreports⟩ := ParsedOn.ok.inj h
        obtain ⟨rfl, rfl⟩ := List.append_eq_nil_iff.1 hreports
        exact ⟨a, mid, rfl, hf⟩
      | panic rest' reports' =>
        rw [hf] at h
        exact absurd h (by simp [ParsedOn.after])
      | starved =>
        rw [hf] at h
        exact absurd h (by simp [ParsedOn.after])
    · rintro ⟨a', mid', h, hf⟩
      obtain ⟨rfl, rfl, rfl⟩ := ParsedOn.ok.inj h
      show (f a mid).after [] = _
      rw [hf]
      rfl
  | panic mid reports => simp
  | starved => simp

/-- A parser that fails reads nothing. -/
theorem not_reads_fail {position : Position} : ¬Reads (fail position fault : Parser α) s a rest :=
  nofun

/-- A starved parser reads nothing. -/
theorem not_reads_starve : ¬Reads (starve : Parser α) s a rest :=
  nofun

/-- A parser that reports does not read without a report. -/
theorem not_reads_report {position : Position} {u : Unit} : ¬Reads (report position fault) s u rest :=
  nofun

/-- A report on a condition is one at the next item, before what follows. -/
theorem reportIf_bind {condition : Bool} {f : Unit → Parser β} :
    (reportIf condition fault >>= f) s = (f () s).after (if condition then [⟨s.peekPosition, fault⟩] else []) := by
  cases condition <;> rfl

/-- Nothing is reported where the condition for it does not hold. -/
theorem reads_reportIf {condition : Bool} {u : Unit} :
    Reads (reportIf condition fault) s u rest ↔ condition = false ∧ rest = s := by
  unfold Reads reportIf
  cases condition with
  | true => simp
  | false => simp [eq_comm]

/-- A symbol is taken if it is next. -/
theorem takeSymbol_of_starts (h : s.Starts (.symbol symbol)) : takeSymbol symbol s = .ok true s.advance [] := by
  simp [takeSymbol, nextIf, h.token?_peek, Token.isSymbol]

/-- A symbol that is not next is not taken. -/
theorem takeSymbol_of_not_starts (h : ¬s.Starts (.symbol symbol)) : takeSymbol symbol s = .ok false s [] := by
  have hpeek : ¬s.peek.token?.any (Token.isSymbol symbol) = true := by
    rw [any_token?_peek rfl]
    rintro ⟨t, ht, hsymbol⟩
    rw [Token.isSymbol_iff.1 hsymbol] at ht
    exact h ht
  simp [takeSymbol, nextIf, hpeek]

/-- A keyword is taken if it is next. -/
theorem takeKeyword_of_starts (h : s.Starts (.keyword keyword)) : takeKeyword keyword s = .ok true s.advance [] := by
  simp [takeKeyword, nextIf, h.token?_peek, Token.isKeyword]

/-- A keyword that is not next is not taken. -/
theorem takeKeyword_of_not_starts (h : ¬s.Starts (.keyword keyword)) : takeKeyword keyword s = .ok false s [] := by
  have hpeek : ¬s.peek.token?.any (Token.isKeyword keyword) = true := by
    rw [any_token?_peek rfl]
    rintro ⟨t, ht, hkeyword⟩
    rw [Token.isKeyword_iff.1 hkeyword] at ht
    exact h ht
  simp [takeKeyword, nextIf, hpeek]

/-- A choice by a symbol goes by whether the symbol is next. -/
theorem reads_ifSymbol : Reads (do if ← takeSymbol symbol then p else q) s a rest ↔
    s.Starts (.symbol symbol) ∧ Reads p s.advance a rest ∨ ¬s.Starts (.symbol symbol) ∧ Reads q s a rest := by
  rw [reads_bind]
  by_cases h : s.Starts (.symbol symbol)
  · simp [Reads, takeSymbol_of_starts h, h]
  · simp [Reads, takeSymbol_of_not_starts h, h]

/-- A choice by a keyword goes by whether the keyword is next. -/
theorem reads_ifKeyword : Reads (do if ← takeKeyword keyword then p else q) s a rest ↔
    s.Starts (.keyword keyword) ∧ Reads p s.advance a rest ∨ ¬s.Starts (.keyword keyword) ∧ Reads q s a rest := by
  rw [reads_bind]
  by_cases h : s.Starts (.keyword keyword)
  · simp [Reads, takeKeyword_of_starts h, h]
  · simp [Reads, takeKeyword_of_not_starts h, h]

/-- A look at the next token consumes nothing. -/
theorem reads_nextIs {r : Token → Bool} {found : Bool} :
    Reads (nextIs r) s found rest ↔ found = s.peek.token?.any r ∧ rest = s := by
  simp [Reads, nextIs, eq_comm]

/-- A look for the end consumes nothing. -/
theorem reads_atEof {found : Bool} : Reads atEof s found rest ↔ found = s.isAtEof ∧ rest = s := by
  simp [Reads, atEof, eq_comm]

/-- The next item is read as it is. -/
theorem reads_next {item : Item} : Reads next s item rest ↔ item = s.peek ∧ rest = s.advance := by
  simp [Reads, next, eq_comm]

/-- What an item holds that is a token is next. -/
theorem content_peek_of_starts {t : Token} (h : s.Starts t) : s.peek.content = .ok t := by
  obtain ⟨item, items, hs, hitem⟩ := h
  simp [peek, hs, hitem]

/-- The next item is a token or the end mark if it is no error. -/
theorem starts_of_content_peek {t : Token} (h : s.peek.content = .ok t) (ht : t ≠ .eof) : s.Starts t :=
  starts_of_token?_peek (by simp [Item.token?, h]) ht

/-- A symbol is read where it is expected if it is next. -/
theorem reads_expectSymbol {u : Unit} :
    Reads (expectSymbol symbol fault) s u rest ↔ s.Starts (.symbol symbol) ∧ rest = s.advance := by
  unfold expectSymbol
  simp only [reads_bind, reads_next]
  constructor
  · rintro ⟨item, mid, ⟨rfl, rfl⟩, h⟩
    cases hpeek : s.peek.content with
    | error e => simp [hpeek, not_reads_fail] at h
    | ok t =>
      simp only [hpeek] at h
      split at h
      · rename_i hsymbol
        obtain rfl := Token.isSymbol_iff.1 hsymbol
        exact ⟨starts_of_content_peek hpeek (by simp), (reads_pure.1 h).2⟩
      · exact absurd h not_reads_fail
  · rintro ⟨h, rfl⟩
    refine ⟨_, _, ⟨rfl, rfl⟩, ?_⟩
    simp [content_peek_of_starts h, Token.isSymbol, reads_pure]

/-- A name is read where one is expected if it is next. -/
theorem reads_expectIdentifier {name : String} :
    Reads expectIdentifier s name rest ↔ s.Starts (.identifier name) ∧ rest = s.advance := by
  unfold expectIdentifier
  simp only [reads_bind, reads_next]
  constructor
  · rintro ⟨item, mid, ⟨rfl, rfl⟩, h⟩
    split at h
    · rename_i name' hpeek
      obtain ⟨rfl, rfl⟩ := reads_pure.1 h
      exact ⟨starts_of_content_peek hpeek (by simp), rfl⟩
    · exact absurd h not_reads_fail
  · rintro ⟨h, rfl⟩
    refine ⟨_, _, ⟨rfl, rfl⟩, ?_⟩
    simp [content_peek_of_starts h, reads_pure]

/-- Something is taken from the next token if that token gives it. -/
theorem takeSome_of_starts {g : Token → Option β} {t : Token} (h : s.Starts t) (hg : g t = some b) :
    takeSome g s = .ok (some b) s.advance [] := by
  simp [takeSome, nextIfSome, h.token?_peek, hg]

/-- Nothing is taken from a token that gives nothing. -/
theorem takeSome_of_not_starts {g : Token → Option β} (hg : g .eof = none) (h : ∀ t, s.Starts t → g t = none) :
    takeSome g s = .ok none s [] := by
  have hpeek : s.peek.token?.bind g = none := by
    rw [Option.bind_eq_none_iff]
    intro t ht
    by_cases heof : t = .eof
    · rw [heof, hg]
    · exact h t (starts_of_token?_peek ht heof)
  simp [takeSome, nextIfSome, hpeek]

/-- A symbol is taken, with its place, if it is next. -/
theorem takeSymbol?_of_starts (h : s.Starts (.symbol symbol)) :
    takeSymbol? symbol s = .ok (some s.peek.position) s.advance [] := by
  simp [takeSymbol?, nextIf, h.token?_peek, Token.isSymbol]

/-- A symbol that is not next is not taken. -/
theorem takeSymbol?_of_not_starts (h : ¬s.Starts (.symbol symbol)) : takeSymbol? symbol s = .ok none s [] := by
  have hpeek : ¬s.peek.token?.any (Token.isSymbol symbol) = true := by
    rw [any_token?_peek rfl]
    rintro ⟨t, ht, hsymbol⟩
    rw [Token.isSymbol_iff.1 hsymbol] at ht
    exact h ht
  simp [takeSymbol?, nextIf, hpeek]

/-- Something is taken from the next token, or nothing because that token gives nothing. -/
theorem reads_takeSome {g : Token → Option β} (hg : g .eof = none) {o : Option β} :
    Reads (takeSome g) s o rest ↔
      (∃ t b, s.Starts t ∧ g t = some b ∧ o = some b ∧ rest = s.advance) ∨
        (∀ t, s.Starts t → g t = none) ∧ o = none ∧ rest = s := by
  by_cases h : ∃ t, s.Starts t ∧ (g t).isSome
  · obtain ⟨t, ht, hsome⟩ := h
    obtain ⟨b, hb⟩ := Option.isSome_iff_exists.1 hsome
    constructor
    · intro hread
      rw [Reads, takeSome_of_starts ht hb] at hread
      obtain ⟨rfl, rfl, -⟩ := ParsedOn.ok.inj hread
      exact .inl ⟨t, b, ht, hb, rfl, rfl⟩
    · rintro (⟨t', b', ht', hb', rfl, rfl⟩ | ⟨hnone, -, -⟩)
      · exact takeSome_of_starts ht' hb'
      · rw [hnone t ht] at hb
        exact absurd hb nofun
  · -- No token that is next gives anything, be it that there is none.
    have hnone : ∀ t, s.Starts t → g t = none := by
      intro t ht
      cases hgt : g t with
      | none => rfl
      | some b => exact absurd ⟨t, ht, by simp [hgt]⟩ h
    constructor
    · intro hread
      rw [Reads, takeSome_of_not_starts hg hnone] at hread
      obtain ⟨rfl, rfl, -⟩ := ParsedOn.ok.inj hread
      exact .inr ⟨hnone, rfl, rfl⟩
    · rintro (⟨t, b, ht, hb, -, -⟩ | ⟨-, rfl, rfl⟩)
      · rw [hnone t ht] at hb
        exact absurd hb nofun
      · exact takeSome_of_not_starts hg hnone

/-- A symbol is taken if it is next, and then with its place. -/
theorem reads_takeSymbol? {o : Option Position} :
    Reads (takeSymbol? symbol) s o rest ↔
      s.Starts (.symbol symbol) ∧ o = some s.peek.position ∧ rest = s.advance ∨
        ¬s.Starts (.symbol symbol) ∧ o = none ∧ rest = s := by
  by_cases h : s.Starts (.symbol symbol)
  · simp [Reads, takeSymbol?_of_starts h, h, eq_comm]
  · simp [Reads, takeSymbol?_of_not_starts h, h, eq_comm]

/-! ## Success unless starved -/

/-- The parser reads `a` as `Reads` says, if the steps it is given suffice. -/
def Tries (p : Parser α) (s : TokenStream) (a : α) (rest : TokenStream) : Prop :=
  p s = .starved ∨ Reads p s a rest

/-- A starved parser lacks steps. -/
theorem tries_starve : Tries starve s a rest :=
  .inl rfl

/-- What follows something that is read goes on as it does on its own. -/
theorem bind_of_reads (hp : Reads p s a mid) : (p >>= f) s = f a mid := by
  show Parser.bind p f s = _
  rw [Parser.bind, hp]
  show (f a mid).after [] = f a mid
  cases f a mid <;> rfl

/-- What follows a starved parser is starved. -/
theorem bind_of_starved (hp : p s = .starved) : (p >>= f) s = .starved := by
  show Parser.bind p f s = _
  rw [Parser.bind, hp]

/-- Two constructs are read one after the other. -/
theorem Tries.bind (hp : Tries p s a mid) (hf : Tries (f a) mid b rest) : Tries (p >>= f) s b rest := by
  rcases hp with hp | hp
  · exact .inl (bind_of_starved hp)
  · unfold Tries Reads at hf ⊢
    rwa [bind_of_reads hp]

/-- What is known already is read. -/
theorem tries_pure : Tries (pure a) s a s :=
  .inr rfl

/-- Nothing is reported where the condition for it does not hold. -/
theorem tries_reportIf {condition : Bool} (h : condition = false) : Tries (reportIf condition fault) s () s :=
  .inr (reads_reportIf.2 ⟨h, rfl⟩)

/-- A symbol is read where it is expected. -/
theorem tries_expectSymbol (h : s.Starts (.symbol symbol)) : Tries (expectSymbol symbol fault) s () s.advance :=
  .inr (reads_expectSymbol.2 ⟨h, rfl⟩)

/-- A name is read where one is expected. -/
theorem tries_expectIdentifier {name : String} (h : s.Starts (.identifier name)) :
    Tries expectIdentifier s name s.advance :=
  .inr (reads_expectIdentifier.2 ⟨h, rfl⟩)

/-- A look at the next token consumes nothing. -/
theorem tries_nextIs {r : Token → Bool} {t : Token} (h : s.Starts t) : Tries (nextIs r) s (r t) s :=
  .inr (reads_nextIs.2 ⟨by simp [h.token?_peek], rfl⟩)

/-- A look for the end consumes nothing. -/
theorem tries_atEof : Tries atEof s s.isAtEof s :=
  .inr rfl

/-- An attempt reads what can be read. -/
theorem Tries.attempt (h : Tries p s a rest) : Tries (attempt p) s (some a) rest := by
  unfold Tries Reads Parser.attempt at *
  rcases h with h | h
  · exact .inl (by rw [h])
  · exact .inr (by rw [h])

/-- A choice by a symbol goes on with the first branch where the symbol is next. -/
theorem ifSymbol_of_starts (h : s.Starts (.symbol symbol)) :
    (do if ← takeSymbol symbol then p else q) s = p s.advance := by
  rw [bind_of_reads (takeSymbol_of_starts h), if_pos rfl]

/-- A choice by a symbol goes on with the second branch where the symbol is not next. -/
theorem ifSymbol_of_not_starts (h : ¬s.Starts (.symbol symbol)) :
    (do if ← takeSymbol symbol then p else q) s = q s := by
  rw [bind_of_reads (takeSymbol_of_not_starts h), if_neg Bool.false_ne_true]

/-- A choice by a symbol that is next. -/
theorem Tries.ifSymbol (h : s.Starts (.symbol symbol)) (hp : Tries p s.advance a rest) :
    Tries (do if ← takeSymbol symbol then p else q) s a rest :=
  Tries.bind (.inr (takeSymbol_of_starts h)) (by simpa using hp)

/-- A choice by a symbol that is not next. -/
theorem Tries.ifNotSymbol (h : ¬s.Starts (.symbol symbol)) (hq : Tries q s a rest) :
    Tries (do if ← takeSymbol symbol then p else q) s a rest :=
  Tries.bind (.inr (takeSymbol_of_not_starts h)) (by simpa using hq)

/-- A choice by a keyword that is next. -/
theorem Tries.ifKeyword (h : s.Starts (.keyword keyword)) (hp : Tries p s.advance a rest) :
    Tries (do if ← takeKeyword keyword then p else q) s a rest :=
  Tries.bind (.inr (takeKeyword_of_starts h)) (by simpa using hp)

/-- A choice by a keyword that is not next. -/
theorem Tries.ifNotKeyword (h : ¬s.Starts (.keyword keyword)) (hq : Tries q s a rest) :
    Tries (do if ← takeKeyword keyword then p else q) s a rest :=
  Tries.bind (.inr (takeKeyword_of_not_starts h)) (by simpa using hq)

end Parser

end Lox
