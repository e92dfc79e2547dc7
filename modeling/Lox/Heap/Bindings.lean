/-!
# Bindings

A finite map from names, in which a name is bound at most once. The entries keep the order in which their names were
first bound.
-/

namespace Lox

/-- Names and what they are bound to. -/
structure Bindings (α : Type) where
  entries : List (String × α) := []
deriving Repr, Inhabited

namespace Bindings

variable {α : Type}

/-- No bindings. -/
def empty : Bindings α := {}

/-- What a name is bound to among some entries. -/
def findIn (name : String) : List (String × α) → Option α
  | [] => none
  | (bound, value) :: rest => if bound = name then some value else findIn name rest

/-- Entries with a name bound anew. -/
def insertIn (name : String) (value : α) : List (String × α) → List (String × α)
  | [] => [(name, value)]
  | (bound, old) :: rest =>
    if bound = name then (bound, value) :: rest else (bound, old) :: insertIn name value rest

/-- What a name is bound to. -/
def find? (b : Bindings α) (name : String) : Option α :=
  findIn name b.entries

/-- Whether a name is bound. -/
def contains (b : Bindings α) (name : String) : Bool :=
  (b.find? name).isSome

/-- Binds a name, in place of what it was bound to before. -/
def insert (b : Bindings α) (name : String) (value : α) : Bindings α :=
  ⟨insertIn name value b.entries⟩

/-- The bound names. -/
def names (b : Bindings α) : List String :=
  b.entries.map Prod.fst

/-- Bindings of a list of pairs; of several for one name the last counts. -/
def ofList (pairs : List (String × α)) : Bindings α :=
  pairs.foldl (fun b p => b.insert p.1 p.2) empty

theorem findIn_insertIn (name other : String) (value : α) (entries : List (String × α)) :
    findIn other (insertIn name value entries) = if name = other then some value else findIn other entries := by
  induction entries with
  | nil => simp [insertIn, findIn]
  | cons entry rest ih =>
    obtain ⟨bound, old⟩ := entry
    grind [insertIn, findIn]

@[simp] theorem find?_empty (name : String) : (empty : Bindings α).find? name = none := rfl

/-- After a name is bound, it is bound to that value and every other name to what it was. -/
@[simp] theorem find?_insert (b : Bindings α) (name other : String) (value : α) :
    (b.insert name value).find? other = if name = other then some value else b.find? other :=
  findIn_insertIn name other value b.entries

end Bindings

end Lox
