/-!
# Tables

A table maps names to entries and keeps the order in which they were added.
A name has at most one entry: adding it again is refused.
-/

namespace Easel

/-- Entries by name, in the order of their addition. -/
structure Table (α : Type) where
  entries : List (String × α)
deriving Repr, Inhabited

namespace Table

variable {α : Type}

/-- The table without entries. -/
def empty : Table α := ⟨[]⟩

/-- The entry of a name. -/
def find? (table : Table α) (name : String) : Option α :=
  table.entries.lookup name

/-- Whether a name has an entry. -/
def contains (table : Table α) (name : String) : Bool :=
  (table.find? name).isSome

/-- The names, in order. -/
def names (table : Table α) : List String :=
  table.entries.map Prod.fst

/-- The number of entries. -/
def size (table : Table α) : Nat :=
  table.entries.length

/-- Add an entry at the end, unless the name has one. -/
def add? (table : Table α) (name : String) (entry : α) : Option (Table α) :=
  if table.contains name then none else some ⟨table.entries ++ [(name, entry)]⟩

/-- The place of a name among the entries. -/
def position? (table : Table α) (name : String) : Option Nat :=
  table.names.idxOf? name

/-- Change the entry of a name, if it has one. -/
def modify (table : Table α) (name : String) (change : α → α) : Table α :=
  ⟨table.entries.map fun (key, entry) =>
    if key = name then (key, change entry) else (key, entry)⟩

/-- Keep the entries of the names that pass a test. -/
def filterNames (table : Table α) (test : String → Bool) : Table α :=
  ⟨table.entries.filter fun (key, _) => test key⟩

/-- Change every entry. -/
def map {β : Type} (table : Table α) (change : α → β) : Table β :=
  ⟨table.entries.map fun (key, entry) => (key, change entry)⟩

end Table

end Easel
