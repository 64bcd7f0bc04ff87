/-!
# TOML values

The values that a TOML document can hold, with its tables as lists of entries in the order in which
their keys are first named.
-/

namespace IpcWiring.Toml

/-- A value of a TOML document. Of numbers with a fraction and of dates only the text is kept. -/
inductive Value where
  | string (s : String)
  | integer (n : Int)
  | float (text : String)
  | boolean (b : Bool)
  | date (text : String)
  | array (items : List Value)
  | table (entries : List (String × Value))
deriving Repr, Inhabited

/-- The entries of a table. -/
abbrev Entries := List (String × Value)

end IpcWiring.Toml
