import Mathlib.Data.List.Basic

/-!
# S-expressions

Words, and heads with parts behind them in parentheses, with one blank before each part. A word ends where a blank or a
parenthesis stands, so an s-expression can be told from its characters, whatever follows them (`Sexp.characters_inj`).
-/

namespace Lox

/-- A word, or a head with parts behind it in parentheses. -/
inductive Sexp where
  | word (w : String)
  | node (head : String) (parts : List Sexp)

/-- The characters that end a word. -/
def endsWord (c : Char) : Bool :=
  c = ' ' || c = '(' || c = ')'

/-- A text that is not empty, and in which no word ends. -/
structure IsWord (w : String) : Prop where
  ne_empty : w.toList ≠ []
  inside : ∀ c ∈ w.toList, endsWord c = false

instance (w : String) : Decidable (IsWord w) :=
  decidable_of_iff (w.toList ≠ [] ∧ w.toList.all (fun c => !endsWord c) = true)
    ⟨fun h => ⟨h.1, by simpa using h.2⟩, fun h => ⟨h.1, by simpa using h.inside⟩⟩

namespace Sexp

mutual

/-- The characters of an s-expression. -/
def characters : Sexp → List Char
  | word w => w.toList
  | node head parts => '(' :: (head.toList ++ (allCharacters parts ++ [')']))

/-- The characters of parts, with a blank before each. -/
def allCharacters : List Sexp → List Char
  | [] => []
  | part :: others => ' ' :: (part.characters ++ allCharacters others)

end

mutual

/-- Every head is a word, and so is every word. -/
def IsPlain : Sexp → Prop
  | word w => IsWord w
  | node head parts => IsWord head ∧ AllPlain parts

/-- So it is in some s-expressions. -/
def AllPlain : List Sexp → Prop
  | [] => True
  | part :: others => part.IsPlain ∧ AllPlain others

end

/-- What follows a word: nothing, or what ends it. -/
def Follows (rest : List Char) : Prop :=
  ∀ c ∈ rest.head?, endsWord c = true

variable {rest rest' : List Char} {s t : Sexp} {ss ts : List Sexp} {w v : String}

/-- The characters of a word are those before the first that ends it. -/
theorem takeWhile_word (hw : IsWord w) (hrest : Follows rest) :
    (w.toList ++ rest).takeWhile (fun c => !endsWord c) = w.toList := by
  have hinside : ∀ c ∈ w.toList, (!endsWord c) = true := fun c hc => by rw [hw.inside c hc]; rfl
  rw [List.takeWhile_append_of_pos hinside]
  cases rest with
  | nil => exact List.append_nil _
  | cons c rest =>
    have hc : endsWord c = true := hrest c rfl
    rw [List.takeWhile_cons_of_neg (by simp [hc]), List.append_nil]

/-- A word can be told from its characters and what follows them. -/
theorem word_inj (hw : IsWord w) (hv : IsWord v) (hrest : Follows rest) (hrest' : Follows rest')
    (h : w.toList ++ rest = v.toList ++ rest') : w = v ∧ rest = rest' := by
  have hword : w.toList = v.toList := by
    rw [← takeWhile_word hw hrest, h, takeWhile_word hv hrest']
  rw [hword] at h
  exact ⟨String.toList_inj.1 hword, List.append_cancel_left h⟩

/-- A word may be the last. -/
theorem follows_nil : Follows [] :=
  fun _ hc => nomatch hc

/-- What is behind a head, or between parts, follows a word. -/
theorem follows_allCharacters (parts : List Sexp) (rest : List Char) :
    Follows (allCharacters parts ++ ')' :: rest) := by
  cases parts <;> exact fun c hc => Option.some.inj hc ▸ rfl

/-- A word does not start with a parenthesis. -/
theorem word_ne_node (hw : IsWord w) {more : List Char} : w.toList ++ rest ≠ '(' :: more := by
  intro h
  cases hc : w.toList with
  | nil => exact hw.ne_empty hc
  | cons c cs =>
    rw [hc] at h
    have hinside := hw.inside c (hc ▸ List.mem_cons_self)
    rw [(List.cons.inj h).1] at hinside
    exact absurd hinside (by decide)

/-- The characters of parts are those of each, behind a blank. -/
theorem allCharacters_eq_flatMap (ss : List Sexp) : allCharacters ss = (ss.map characters).flatMap (' ' :: ·) := by
  induction ss with
  | nil => rfl
  | cons s ss ih => rw [allCharacters, ih, List.map_cons, List.flatMap_cons, List.cons_append]

/-- The characters of a node, with what follows them. -/
theorem characters_node_append (head : String) (parts : List Sexp) (rest : List Char) :
    (node head parts).characters ++ rest = '(' :: (head.toList ++ (allCharacters parts ++ ')' :: rest)) := by
  simp [characters]

/-- The characters of parts, with what follows them. -/
theorem allCharacters_cons_append (part : Sexp) (others : List Sexp) (rest : List Char) :
    allCharacters (part :: others) ++ ')' :: rest =
      ' ' :: (part.characters ++ (allCharacters others ++ ')' :: rest)) := by
  simp [allCharacters]

mutual

/-- An s-expression can be told from its characters and what follows them. -/
theorem characters_inj : ∀ {s t : Sexp} {rest rest' : List Char}, s.IsPlain → t.IsPlain → Follows rest → Follows rest' →
    s.characters ++ rest = t.characters ++ rest' → s = t ∧ rest = rest'
  | word w, word v, _, _, hw, hv, hrest, hrest', h => by
    obtain ⟨rfl, rfl⟩ := word_inj hw hv hrest hrest' h
    exact ⟨rfl, rfl⟩
  | word w, node head parts, _, _, hw, _, _, _, h => absurd (h.trans (characters_node_append ..)) (word_ne_node hw)
  | node head parts, word w, _, _, _, hw, _, _, h => absurd (h.symm.trans (characters_node_append ..)) (word_ne_node hw)
  | node head parts, node head' parts', rest, rest', hs, ht, _, _, h => by
    rw [characters_node_append, characters_node_append] at h
    -- The heads end where the first blank or parenthesis stands, and there the parts begin.
    obtain ⟨rfl, hbehind⟩ := word_inj hs.1 ht.1 (follows_allCharacters parts rest) (follows_allCharacters parts' rest')
      (List.cons.inj h).2
    obtain ⟨rfl, rfl⟩ := allCharacters_inj hs.2 ht.2 hbehind
    exact ⟨rfl, rfl⟩

/-- So can the parts behind a head. -/
theorem allCharacters_inj : ∀ {ss ts : List Sexp} {rest rest' : List Char}, AllPlain ss → AllPlain ts →
    allCharacters ss ++ ')' :: rest = allCharacters ts ++ ')' :: rest' → ss = ts ∧ rest = rest'
  | [], [], _, _, _, _, h => ⟨rfl, (List.cons.inj h).2⟩
  | [], _ :: _, _, _, _, _, h => absurd (List.cons.inj (h.trans (allCharacters_cons_append ..))).1 (by decide)
  | _ :: _, [], _, _, _, _, h => absurd (List.cons.inj (h.symm.trans (allCharacters_cons_append ..))).1 (by decide)
  | s :: ss, t :: ts, rest, rest', hs, ht, h => by
    rw [allCharacters_cons_append, allCharacters_cons_append] at h
    -- What follows the first parts is unknown yet, so their own characters have to end them.
    obtain ⟨rfl, hbehind⟩ := characters_inj hs.1 ht.1 (follows_allCharacters ss rest) (follows_allCharacters ts rest')
      (List.cons.inj h).2
    obtain ⟨rfl, rfl⟩ := allCharacters_inj hs.2 ht.2 hbehind
    exact ⟨rfl, rfl⟩

end

end Sexp

end Lox
