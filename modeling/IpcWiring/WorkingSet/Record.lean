import IpcWiring.WorkingSet.Entry

/-!
# Records of source files

What was extracted from one file is a record: the file's path with its functions or its events. A
file that changes has its record replaced, and a directory that vanishes takes the records below it
along.
-/

namespace IpcWiring

/-- What was extracted from a file. -/
structure Record (α : Type) where
  path : Path
  entries : List α
deriving Inhabited

/-- The functions of a file. -/
abbrev ApiRecord := Record ApiFunction

/-- The events of a file. -/
abbrev EventRecord := Record ApiEvent

namespace Record

variable {α : Type}

/-- The record with its entries sorted by name. -/
def sortEntries [Named α] (r : Record α) : Record α :=
  { r with entries := r.entries.mergeSort fun a b => Text.le (Named.name a) (Named.name b) }

/-- Sorts records by path and the entries of each by name. -/
def sortAll [Named α] (records : List (Record α)) : List (Record α) :=
  (records.mergeSort fun r s => r.path.le s.path).map sortEntries

/-- Puts `updated` in the place of the records of `paths`; the result is not sorted. -/
def merge (records : List (Record α)) (paths : List Path) (updated : List (Record α)) :
    List (Record α) :=
  records.filter (fun r => !paths.any (· == r.path)) ++ updated

/-- Drops the records of a path and of all that lies below it. -/
def remove (records : List (Record α)) (path : Path) : List (Record α) :=
  records.filter fun r => !path.isWithin r.path

/-- A record of the path, or of something below it, is there to be removed. -/
def hasWithin (records : List (Record α)) (path : Path) : Bool :=
  records.any fun r => path.isWithin r.path

/-- All entries in order, each with the path of its file. -/
def placed (records : List (Record α)) : List (Path × α) :=
  records.flatMap fun r => r.entries.map fun e => (r.path, e)

/-- The names of all entries in order. -/
def names [Named α] (records : List (Record α)) : List String :=
  records.flatMap fun r => r.entries.map Named.name

end Record

end IpcWiring
