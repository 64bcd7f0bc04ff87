import IpcWiring.WorkingSet.Record

/-!
# Working sets

The functions and events of all source files together. Functions and events travel in opposite
directions, so a name may stand for one of each, and is a duplicate only among its own kind.
-/

namespace IpcWiring

/-- What was extracted from all source files. -/
structure WorkingSet where
  api : List ApiRecord
  /-- The events, if there is a directory for them. -/
  events? : Option (List EventRecord)
deriving Inhabited

/-- The names that occur more than once, sorted. -/
def repeatedNames (names : List String) : List String :=
  Text.sortDistinct (names.filter fun n => names.count n > 1)

namespace WorkingSet

/-- The working set without any record or directory for events. -/
def empty : WorkingSet := ⟨[], none⟩

/-- The event records, none if there is no directory for them. -/
def events (w : WorkingSet) : List EventRecord := w.events?.getD []

/-- Sorts records by path and entries by name. -/
def sort (w : WorkingSet) : WorkingSet :=
  ⟨Record.sortAll w.api, w.events?.map Record.sortAll⟩

/-- How many functions there are. -/
def functionCount (w : WorkingSet) : Nat := (Record.names w.api).length

/-- How many events there are. -/
def eventCount (w : WorkingSet) : Nat := (Record.names w.events).length

/-- The names of functions that occur more than once, then those of events. -/
def duplicateChannels (w : WorkingSet) : List String :=
  repeatedNames (Record.names w.api) ++ repeatedNames (Record.names w.events)

end WorkingSet

end IpcWiring
