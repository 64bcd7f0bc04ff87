/-!
# Lists without repetition

Appending to a list only what it does not have yet, so that the first occurrence of every value
keeps its place.
-/

namespace IpcWiring

variable {α : Type} [BEq α]

/-- Puts a value at the end of a list that does not have it. -/
def addNew (known : List α) (a : α) : List α :=
  if known.contains a then known else known ++ [a]

/-- Puts the values that a list does not have at its end, each one once. -/
def appendNew (known more : List α) : List α := more.foldl addNew known

end IpcWiring
