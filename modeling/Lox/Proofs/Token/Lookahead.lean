import Mathlib.Data.Stream.Init
import Lox.Proofs.Token.Scanner
import Lox.Token.Lookahead

/-!
# The lookahead is invisible

What a stream yields when it is only consumed (`Lookahead.items`) is all that can be told of it: a look leaves it as it
is (`Lookahead.items_peek`), and every operation answers about its first item, which it consumes or leaves
(`Operation.meets`, `Operation.taken_append_items`). So whatever was asked of the stream of a text, in whatever order,
the items consumed are the first ones of the text, and the others are still to come (`Lookahead.lookahead_invisible`).
-/

namespace Lox

/-- The items of a text, and then the end mark again and again. -/
def itemsOf (text : String) : Stream' Item :=
  scan text ++ₛ Stream'.const (Item.eof (endPosition text))

namespace Lookahead

variable {s : Lookahead} {p : Position}

/-- What a stream yields when it is consumed item by item. -/
def items : Lookahead → Stream' Item :=
  Stream'.corec' next

/-- The next item is the first. -/
theorem items_eq (s : Lookahead) : s.items = Stream'.cons s.next.1 s.next.2.items :=
  Stream'.corec'_eq next s

@[simp] theorem next_fst (s : Lookahead) : s.next.1 = s.items.head := by
  rw [items_eq, Stream'.head_cons]

@[simp] theorem items_next (s : Lookahead) : s.next.2.items = s.items.tail := by
  rw [items_eq s, Stream'.tail_cons]

/-- Behind a look, the same is consumed. -/
theorem next_peek (s : Lookahead) : s.peek.2.next = s.next := by
  obtain ⟨scanner, peeked, last⟩ := s
  cases peeked with
  | some item => rfl
  | none => cases scanner <;> rfl

@[simp] theorem peek_fst (s : Lookahead) : s.peek.1 = s.items.head := by
  rw [← next_fst]
  obtain ⟨scanner, peeked, last⟩ := s
  cases peeked with
  | some item => rfl
  | none => cases scanner <;> rfl

@[simp] theorem items_peek (s : Lookahead) : s.peek.2.items = s.items := by
  rw [items_eq s, items_eq s.peek.2, next_peek]

/-- Once the scanner has nothing more to yield, there is an end mark again and again. -/
theorem items_exhausted (p : Position) : items ⟨[], none, p⟩ = Stream'.const (Item.eof p) := by
  have hnext : next ⟨[], none, p⟩ = (Item.eof p, ⟨[], none, p⟩) := rfl
  ext n
  induction n with
  | zero =>
    rw [items_eq, hnext]
    rfl
  | succ n ih =>
    rw [items_eq, hnext, Stream'.get_succ, Stream'.tail_cons, ih]
    rfl

/-- What the scanner yields comes first, and then end marks at the place of its last item. -/
theorem items_scanned (scanner : List Item) (p : Position) :
    items ⟨scanner, none, p⟩ =
      scanner ++ₛ Stream'.const (Item.eof (scanner.foldl (fun _ item => item.position) p)) := by
  induction scanner generalizing p with
  | nil => exact items_exhausted p
  | cons item others ih =>
    have hnext : next ⟨item :: others, none, p⟩ = (item, ⟨others, none, item.position⟩) := rfl
    rw [items_eq, hnext, ih]
    rfl

/-- The next item is consumed, behind a look at it, if it is a token with the property. -/
theorem nextIf_eq (s : Lookahead) (p : Token → Bool) :
    s.nextIf p = if s.items.head.token?.any p then (some s.items.head, s.next.2) else (none, s.peek.2) := by
  have hlook : s.nextIf p =
      if s.peek.1.token?.any p then
        (if s.peek.2.next.1.token?.isSome then some s.peek.2.next.1 else none, s.peek.2.next.2)
      else (none, s.peek.2) := rfl
  rw [hlook, next_peek, next_fst, peek_fst]
  cases s.items.head.token? <;> rfl

/-- The next item is consumed, behind a look at it, if it is a token from which something is got. -/
theorem nextIfSome_eq {α : Type} (s : Lookahead) (f : Token → Option α) :
    s.nextIfSome f = match s.items.head.token?.bind f with
      | some a => (some a, s.next.2)
      | none => (none, s.peek.2) := by
  have hlook : s.nextIfSome f = match s.peek.1.token?.bind f with
      | some a => (some a, s.peek.2.next.2)
      | none => (none, s.peek.2) := rfl
  rw [hlook, next_peek, peek_fst]

/-- The stream of a text yields its items. -/
theorem items_ofText (text : String) : (ofText text).items = itemsOf text := by
  have hlast : (scan text).foldl (fun _ item => item.position) {} = endPosition text := by
    rw [scan_eq, List.foldl_append]
    rfl
  rw [ofText, items_scanned, hlast, itemsOf]

end Lookahead

/-! ## Operations -/

/-- An item that is a token has it. -/
theorem Item.token?_eq_some {item : Item} {t : Token} (h : item.content = .ok t) : item.token? = some t := by
  rw [token?, h]

/-- An item that is an error has no token. -/
theorem Item.token?_eq_none {item : Item} {e : ScanError} (h : item.content = .error e) : item.token? = none := by
  rw [token?, h]

/-- Whether an item is the end mark. -/
theorem Item.any_isEof_iff (item : Item) : item.token?.any Token.isEof = true ↔ item.content = .ok .eof := by
  obtain ⟨position, content⟩ := item
  cases content with
  | error e => simp [token?]
  | ok t => cases t <;> simp [token?, Token.isEof]

/-- What may be asked of a stream, with the type of the answer. -/
inductive Operation : Type → Type 1
  | next : Operation Item
  | peek : Operation Item
  | peekPosition : Operation Position
  | isAtEof : Operation Bool
  | nextIf (p : Token → Bool) : Operation (Option Item)
  | nextIfSome {α : Type} (f : Token → Option α) : Operation (Option α)

namespace Operation

open Lookahead

variable {α : Type}

/-- The answer, and the stream behind it. -/
def run : Operation α → Lookahead → α × Lookahead
  | next, s => s.next
  | peek, s => s.peek
  | peekPosition, s => s.peekPosition
  | isAtEof, s => s.isAtEof
  | nextIf p, s => s.nextIf p
  | nextIfSome f, s => s.nextIfSome f

/-- The items that are consumed: the one that is answered, or the one that is dropped for what was got from it. -/
def taken : Operation α → Lookahead → List Item
  | next, s => [s.next.1]
  | peek, _ => []
  | peekPosition, _ => []
  | isAtEof, _ => []
  | nextIf p, s => (s.nextIf p).1.toList
  | nextIfSome f, s => if (s.nextIfSome f).1.isSome then [s.peek.2.next.1] else []

/-- How an operation should answer where an item is next, and what it should consume. -/
inductive Meets : {α : Type} → Operation α → Item → α → List Item → Prop
  | next {item : Item} : Meets next item item [item]
  | peek {item : Item} : Meets peek item item []
  | peekPosition {item : Item} : Meets peekPosition item item.position []
  | isAtEof {item : Item} {ended : Bool} (h : ended = true ↔ item.content = .ok .eof) : Meets isAtEof item ended []
  | nextIf_match {item : Item} {t : Token} {p : Token → Bool} (ht : item.content = .ok t) (hp : p t = true) :
    Meets (nextIf p) item (some item) [item]
  | nextIf_other {item : Item} {p : Token → Bool} (h : ∀ t, item.content = .ok t → p t = false) :
    Meets (nextIf p) item none []
  | nextIfSome_match {item : Item} {t : Token} {β : Type} {f : Token → Option β} {b : β} (ht : item.content = .ok t)
    (hf : f t = some b) : Meets (nextIfSome f) item (some b) [item]
  | nextIfSome_other {item : Item} {β : Type} {f : Token → Option β} (h : ∀ t, item.content = .ok t → f t = none) :
    Meets (nextIfSome f) item none []

/-- An operation answers about the next item. -/
theorem meets (op : Operation α) (s : Lookahead) : op.Meets s.items.head (op.run s).1 (op.taken s) := by
  cases op with
  | next =>
    rw [run, taken, next_fst]
    exact .next
  | peek =>
    rw [run, taken, peek_fst]
    exact .peek
  | peekPosition =>
    have hposition : s.peekPosition.1 = s.peek.1.position := rfl
    rw [run, taken, hposition, peek_fst]
    exact .peekPosition
  | isAtEof =>
    have hended : s.isAtEof.1 = s.peek.1.token?.any Token.isEof := rfl
    rw [run, taken, hended, peek_fst]
    exact .isAtEof (Item.any_isEof_iff _)
  -- An error is no token, so no condition holds of it.
  | nextIf p =>
    rw [run, taken, nextIf_eq]
    cases hcontent : s.items.head.content with
    | error e =>
      have htoken : s.items.head.token? = none := Item.token?_eq_none hcontent
      rw [htoken, if_neg (by simp)]
      exact .nextIf_other fun t ht => nomatch hcontent.symm.trans ht
    | ok t =>
      have htoken : s.items.head.token? = some t := Item.token?_eq_some hcontent
      rw [htoken, Option.any_some]
      cases hp : p t with
      | true => exact .nextIf_match hcontent hp
      | false =>
        refine .nextIf_other fun u hu => ?_
        rw [← Except.ok.inj (hcontent.symm.trans hu), hp]
  | nextIfSome f =>
    rw [run, taken, nextIfSome_eq, next_peek, next_fst]
    cases hcontent : s.items.head.content with
    | error e =>
      have htoken : s.items.head.token? = none := Item.token?_eq_none hcontent
      rw [htoken]
      exact .nextIfSome_other fun t ht => nomatch hcontent.symm.trans ht
    | ok t =>
      have htoken : s.items.head.token? = some t := Item.token?_eq_some hcontent
      rw [htoken, Option.bind_some]
      cases hf : f t with
      | some b => exact .nextIfSome_match hcontent hf
      | none =>
        refine .nextIfSome_other fun u hu => ?_
        rw [← Except.ok.inj (hcontent.symm.trans hu), hf]

/-- What is consumed and what is then to come is what was to come before. -/
theorem taken_append_items (op : Operation α) (s : Lookahead) : op.taken s ++ₛ (op.run s).2.items = s.items := by
  have hnext : [s.items.head] ++ₛ s.next.2.items = s.items := by
    rw [items_next, Stream'.append_stream_head_tail]
  cases op with
  | next =>
    rw [taken, run, next_fst, hnext]
  | peek => exact items_peek s
  | peekPosition => exact items_peek s
  | isAtEof => exact items_peek s
  | nextIf p =>
    rw [taken, run, nextIf_eq]
    split
    · exact hnext
    · exact items_peek s
  | nextIfSome f =>
    rw [taken, run, nextIfSome_eq, next_peek, next_fst]
    split
    · exact hnext
    · exact items_peek s

end Operation

/-! ## Sequences of operations -/

namespace Lookahead

/-- The stream after some operations. -/
def after : List (Σ α, Operation α) → Lookahead → Lookahead
  | [], s => s
  | ⟨_, op⟩ :: ops, s => after ops (op.run s).2

/-- The items that some operations consume, one after the other. -/
def taken : List (Σ α, Operation α) → Lookahead → List Item
  | [], _ => []
  | ⟨_, op⟩ :: ops, s => op.taken s ++ taken ops (op.run s).2

/-- What operations consume and what is then to come is what was to come before. -/
theorem taken_append_items (ops : List (Σ α, Operation α)) (s : Lookahead) :
    taken ops s ++ₛ (after ops s).items = s.items := by
  induction ops generalizing s with
  | nil => rfl
  | cons call ops ih =>
    obtain ⟨α, op⟩ := call
    rw [taken, after, Stream'.append_append_stream, ih, op.taken_append_items]

/-- Whatever was asked of the stream of a text, in whatever order, the items consumed are the first items of the text,
and the others are to come; past the scanner's last item, the end mark, they are end marks at its place. The next
operation answers about the first of these, and consumes it or leaves it as `Operation.Meets` says. Scan errors are
consumed by no condition. -/
theorem lookahead_invisible (text : String) (ops : List (Σ α, Operation α)) :
    let consumed := taken ops (ofText text)
    let s := after ops (ofText text)
    let item := (itemsOf text).get consumed.length
    (scan text).getLast? = some (Item.eof (endPosition text)) ∧
      consumed = (itemsOf text).take consumed.length ∧ s.items = (itemsOf text).drop consumed.length ∧
      (∀ {α : Type} (op : Operation α), op.Meets item (op.run s).1 (op.taken s)) ∧
      ∀ e, item.content = .error e →
        (∀ p, (Operation.nextIf p).taken s = []) ∧
          ∀ {α : Type} (f : Token → Option α), (Operation.nextIfSome f).taken s = [] := by
  intro consumed s item
  -- Everything is read off this: what was consumed, with what is left behind it, is what the text yields.
  have hall : consumed ++ₛ s.items = itemsOf text := by
    rw [taken_append_items, items_ofText]
  have hdrop : s.items = (itemsOf text).drop consumed.length := by
    rw [← hall, Stream'.drop_append_stream]
  have hitem : item = s.items.head := by
    rw [hdrop, Stream'.head_drop]
  refine ⟨?_, ?_, hdrop, fun op => ?_, fun e he => ?_⟩
  · rw [scan_eq, List.getLast?_concat]
  · rw [← hall, Stream'.take_append_of_le_length _ _ _ le_rfl, List.take_length]
  · rw [hitem]
    exact op.meets s
  · rw [hitem] at he
    have htoken : s.items.head.token? = none := Item.token?_eq_none he
    constructor
    · intro p
      rw [Operation.taken, nextIf_eq, htoken]
      rfl
    · intro α f
      rw [Operation.taken, nextIfSome_eq, htoken]
      rfl

end Lookahead

end Lox
