import IpcWiring.Text.Basic

/-!
# Finite maps on names

A map from names to values, kept as a list of entries with distinct names in the order in which the
names were first put in.
-/

namespace IpcWiring

/-- A map from names to values. -/
structure NameMap (α : Type) where
  entries : List (String × α)

namespace NameMap

variable {α : Type}

instance : Inhabited (NameMap α) := ⟨⟨[]⟩⟩

/-- The map without entries. -/
def empty : NameMap α := ⟨[]⟩

/-- The value of a name. -/
def find? (m : NameMap α) (name : String) : Option α := m.entries.lookup name

/-- The name has a value. -/
def contains (m : NameMap α) (name : String) : Bool := (m.find? name).isSome

/-- The names in order. -/
def keys (m : NameMap α) : List String := m.entries.map (·.1)

/-- The values in the order of their names. -/
def values (m : NameMap α) : List α := m.entries.map (·.2)

/-- Gives a name a value in place of the one it had. -/
def insertEntry (name : String) (value : α) : List (String × α) → List (String × α)
  | [] => [(name, value)]
  | (k, v) :: rest =>
    if k == name then (k, value) :: rest else (k, v) :: insertEntry name value rest

/-- Gives a name a value in place of the one it had. -/
def insert (m : NameMap α) (name : String) (value : α) : NameMap α :=
  ⟨insertEntry name value m.entries⟩

end NameMap

end IpcWiring
