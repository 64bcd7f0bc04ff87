import IpcWiring.Project

/-!
# Changes

A notification tells that something happened to a path below a watched directory. What it means for
the working set depends on what is at the path now, and hardly on what is said to have happened.
-/

namespace IpcWiring

/-- What happened to a path. -/
inductive ChangeKind where
  /-- It was made or written. -/
  | content
  /-- It was renamed, from or to this path. -/
  | rename
  | remove
  /-- Its permissions or times changed. -/
  | metadata
deriving DecidableEq, Repr, Inhabited

/-- What a file system reports. -/
inductive FileEvent where
  | access
  | create
  | remove
  | rename
  | metadata
  /-- Any other change of a file. -/
  | modify
  /-- It is not known what happened. -/
  | unknown
deriving DecidableEq, Repr

/-- What a report tells of a path. That it was looked at tells nothing. -/
def FileEvent.kind? : FileEvent → Option ChangeKind
  | access => none
  | create | modify | unknown => some .content
  | remove => some .remove
  | rename => some .rename
  | metadata => some .metadata

/-- The directories that are watched. -/
inductive WatchRoot where
  | api
  | events
deriving DecidableEq, Repr, Inhabited

/-- A change of a path below a watched directory. -/
structure Change where
  kind : ChangeKind
  path : Path
  root : WatchRoot
deriving Repr, Inhabited

/-- What a change means for the working set. -/
inductive Reaction where
  /-- The records of the path, and of all below it, are gone. -/
  | remove (path : Path)
  /-- The file at the path is to be read again. -/
  | update (path : Path)
deriving Repr

/-- The path of a reaction. -/
def Reaction.path : Reaction → Path
  | remove p | update p => p

namespace Project

/-- The scanner of a watched directory. -/
def scannerFor? (p : Project) : WatchRoot → Option Scanner
  | .api => some p.apiScanner
  | .events => p.eventScanner?

/-- What a change means, if anything. The directories that artifacts go to come first: nothing that
happens there means anything. -/
def react? (p : Project) (t : FileTree) (c : Change) : Option Reaction := do
  let scanner ← p.scannerFor? c.root
  let path := c.path.normalize
  if scanner.isExcluded path then none
  else if !t.contains path then some (.remove path)
  else if t.isDirectory path || c.kind == .metadata then none
  else if scanner.accepts path then some (.update path)
  else none

end Project

end IpcWiring
