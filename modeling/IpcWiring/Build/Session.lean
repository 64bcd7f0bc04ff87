import IpcWiring.Build.Change
import IpcWiring.Build.Plan

/-!
# Sessions

A session keeps the working set between builds. Only one build or rebuild goes on at a time: it
takes the lock and gives it back when it ends, and one that finds the lock taken does nothing. The
working set is replaced after all files were written, so an error leaves it as it was.
-/

namespace IpcWiring

/-- What is kept between builds. -/
structure Session where
  retained : WorkingSet
  /-- A build is going on. -/
  locked : Bool

namespace Session

/-- Nothing was built yet. -/
def initial : Session := ⟨.empty, false⟩

/-- Takes the lock, unless it is taken already. -/
def acquire? (s : Session) : Option Session :=
  if s.locked then none else some { s with locked := true }

/-- Gives the lock back. -/
def release (s : Session) : Session := { s with locked := false }

end Session

/-- A session with the files that it works on. -/
structure World where
  session : Session
  tree : FileTree

/-- Does something while the lock is held, and gives it back however that ends. Where the lock is
taken already nothing is done. -/
def World.exclusively {α : Type} (x : World) (busy : α) (act : World → α × World) : α × World :=
  match x.session.acquire? with
  | none => (busy, x)
  | some session =>
    let (result, y) := act { x with session }
    (result, { y with session := y.session.release })

/-- What a build did. -/
structure BuildOutput where
  plan : Plan
  writes : List WriteResult

/-- What came of a change. -/
inductive Outcome where
  /-- Another rebuild was going on. -/
  | dropped
  /-- The change means nothing. -/
  | ignored
  | removed (path : Path) (written : Nat)
  | updated (path : Path) (written : Nat)
  | failed (e : BuildError)
deriving Repr

namespace Project

/-! ## Builds -/

/-- Plans, writes and retains the working set, while the lock is held. -/
def buildLocked (p : Project) (w : Writer) (x : World) : Except BuildError BuildOutput × World :=
  match p.plan x.tree with
  | .error e => (.error e, x)
  | .ok plan =>
    match w.writeAll x.tree plan.outputs with
    | (.error e, tree) => (.error (.write e), { x with tree })
    | (.ok writes, tree) =>
      (.ok ⟨plan, writes⟩, ⟨{ x.session with retained := plan.workingSet }, tree⟩)

/-- Builds the project, unless a build is going on. -/
def build (p : Project) (w : Writer) (x : World) : Except BuildError BuildOutput × World :=
  x.exclusively (.error .busy) (p.buildLocked w)

/-! ## Rebuilds -/

/-- The working set without the records of a path, if it has any. -/
def removed? (set : WorkingSet) (path : Path) : WatchRoot → Option WorkingSet
  | .api =>
    if Record.hasWithin set.api path then some { set with api := Record.remove set.api path }
    else none
  | .events => do
    let events ← set.events?
    if Record.hasWithin events path then
      some { set with events? := some (Record.remove events path) }
    else none

/-- The working set with a file read again. -/
def updated (p : Project) (t : FileTree) (set : WorkingSet) (path : Path) : WatchRoot → WorkingSet
  | .api => { set with api := (p.extractApi t [path] set.api).records }
  | .events =>
    { set with events? := some (Record.merge set.events [path] (extractEvents t [path]).records) }

/-- The sorted working set after a reaction, if that changes it. -/
def next? (p : Project) (t : FileTree) (set : WorkingSet) (root : WatchRoot) :
    Reaction → Option WorkingSet
  | .remove path => (removed? set path root).map WorkingSet.sort
  | .update path => some (p.updated t set path root).sort

/-- What came of a reaction after which so many files were written. -/
def outcomeOf (written : Nat) : Reaction → Outcome
  | .remove path => .removed path written
  | .update path => .updated path written

/-- Writes the artifacts of a working set and retains it. -/
def commit (p : Project) (w : Writer) (x : World) (set : WorkingSet) (r : Reaction) :
    Outcome × World :=
  let outputs := (Emit.generate p.emit set).map fun f => (f.path, f.text)
  match w.writeAll x.tree outputs with
  | (.error e, tree) => (.failed (.write e), { x with tree })
  | (.ok writes, tree) =>
    (outcomeOf (writes.countP (·.wasWritten)) r, ⟨{ x.session with retained := set }, tree⟩)

/-- Applies a change to the working set and writes the artifacts anew, while the lock is held. -/
def handleLocked (p : Project) (w : Writer) (c : Change) (x : World) : Outcome × World :=
  match p.react? x.tree c with
  | none => (.ignored, x)
  | some r =>
    match p.next? x.tree x.session.retained c.root r with
    | none => (.ignored, x)
    | some set => p.commit w x set r

/-- Applies a change to the working set and writes the artifacts anew, unless a build goes on. -/
def handleChange (p : Project) (w : Writer) (x : World) (c : Change) : Outcome × World :=
  x.exclusively .dropped (p.handleLocked w c)

end Project

end IpcWiring
