import IpcWiring.Proofs.Build.Run
import Mathlib.Logic.Function.Basic

/-!
# Calls that go on at once

A build or the handling of a change is a call (`Call`), and while it goes on there may be others. A
call asks for the lock once; with the lock it looks at the files and at what is retained, writes one
file after another, retains the new working set and gives the lock back. Between two of these steps
(`Call.advance`) others may make theirs, in any order (`Calls.run`).

A call that is left alone comes to what it comes to in one piece (`Call.finish_advance`), and what
its steps do to the lock is one of four things (`Call.moves`).
-/

namespace IpcWiring

/-- What is called for. -/
inductive Request where
  | build
  | change (c : Change)

/-- A build, or the handling of a change, with the writer that it uses. -/
structure Call where
  request : Request
  writer : Writer

/-- What a call returns. -/
inductive Answer where
  | built (result : Except BuildError BuildOutput)
  | handled (outcome : Outcome)

/-- The world with the lock given back. -/
def World.release (x : World) : World := { x with session := x.session.release }

/-! ## Calls in one piece -/

namespace Call

/-- What a call returns that finds the lock taken. -/
def refusal (call : Call) : Answer :=
  match call.request with
  | .build => .built (.error .busy)
  | .change _ => .handled .dropped

/-- The call in one piece. -/
def run (call : Call) (p : Project) (x : World) : Answer × World :=
  match call.request with
  | .build => (.built (p.build call.writer x).1, (p.build call.writer x).2)
  | .change c => (.handled (p.handleChange call.writer x c).1, (p.handleChange call.writer x c).2)

/-- The call in one piece, after it took the lock and until it gives it back. -/
def runLocked (call : Call) (p : Project) (x : World) : Answer × World :=
  match call.request with
  | .build => (.built (p.buildLocked call.writer x).1, (p.buildLocked call.writer x).2)
  | .change c =>
    (.handled (p.handleLocked call.writer c x).1, (p.handleLocked call.writer c x).2)

/-- Gives the lock back at the end of a call. -/
def leave (result : Answer × World) : Answer × World := (result.1, result.2.release)

/-- All that a call does it does while it holds the lock. -/
theorem run_eq (call : Call) (p : Project) (x : World) :
    call.run p x = match x.session.acquire? with
      | none => (call.refusal, x)
      | some session => leave (call.runLocked p { x with session }) := by
  obtain ⟨_ | c, w⟩ := call <;> obtain ⟨⟨retained, _ | _⟩, tree⟩ := x <;> rfl

end Call

/-! ## Writing and retaining -/

/-- What a call is to write and to retain. -/
inductive Job where
  | build (plan : Plan)
  /-- The reaction to a change, with the working set that it was applied to and the one it leads
  to. -/
  | change (r : Reaction) (snapshot next : WorkingSet)

namespace Job

/-- The working set that is to be retained. -/
def set : Job → WorkingSet
  | build plan => plan.workingSet
  | change _ _ next => next

/-- What is returned after everything was written. -/
def success (writes : List WriteResult) : Job → Answer
  | build plan => .built (.ok ⟨plan, writes⟩)
  | change r _ _ => .handled (Project.outcomeOf (writes.countP (·.wasWritten)) r)

/-- What is returned after a file could not be written. -/
def failure (e : WriteError) : Job → Answer
  | build _ => .built (.error (.write e))
  | change _ _ _ => .handled (.failed (.write e))

/-- Writes the files that are left, after others were written, and retains the working set. -/
def complete (job : Job) (w : Writer) (x : World) (pending : List (Path × String))
    (results : List WriteResult) : Answer × World :=
  match w.writeAll x.tree pending with
  | (.error e, tree) => (job.failure e, { x with tree })
  | (.ok writes, tree) =>
    (job.success (results ++ writes), ⟨{ x.session with retained := job.set }, tree⟩)

/-- With no file left the working set is retained. -/
theorem complete_nil (job : Job) (w : Writer) (x : World) (results : List WriteResult) :
    job.complete w x [] results =
      (job.success results, { x with session.retained := job.set }) := by
  rw [complete, Writer.writeAll]
  dsimp only
  rw [List.append_nil]

/-- The first of the files that are left is written, and then the others if that went well. -/
theorem complete_cons (job : Job) (w : Writer) (x : World) (path : Path) (text : String)
    (pending : List (Path × String)) (results : List WriteResult) :
    job.complete w x ((path, text) :: pending) results =
      match w.write x.tree path text with
      | (.error e, tree) => (job.failure e, { x with tree })
      | (.ok result, tree) =>
        job.complete w { x with tree } pending (results ++ [result]) := by
  rw [complete, Writer.writeAll]
  rcases w.write x.tree path text with ⟨e | result, tree⟩
  · rfl
  · dsimp only [complete]
    rcases w.writeAll tree pending with ⟨e | writes, u⟩
    · rfl
    · dsimp only [Except.map]
      rw [List.append_assoc, List.singleton_append]

end Job

/-! ## Calls step by step -/

/-- How far a call has come. -/
inductive Phase where
  | waiting
  /-- It took the lock. -/
  | entered
  /-- It knows the reaction to its change. -/
  | reacting (root : WatchRoot) (r : Reaction)
  /-- It took a copy of what is retained. -/
  | extracting (root : WatchRoot) (r : Reaction) (snapshot : WorkingSet)
  /-- It is to write these files yet, after others were written. -/
  | writing (job : Job) (pending : List (Path × String)) (results : List WriteResult)
  /-- It is to give the lock back. -/
  | leaving (answer : Answer)
  | ended (answer : Answer)

namespace Phase

/-- The call holds the lock. -/
def holds : Phase → Bool
  | waiting | ended _ => false
  | entered | reacting .. | extracting .. | writing .. | leaving _ => true

/-- The working set that the call found retained, if it goes on from that. -/
def snapshot? : Phase → Option WorkingSet
  | extracting _ _ snapshot => some snapshot
  | writing (.change _ snapshot _) _ _ => some snapshot
  | waiting | entered | reacting .. | writing (.build _) _ _ | leaving _ | ended _ => none

/-- What the call goes on from is what is retained. -/
def IsFresh (phase : Phase) (x : World) : Prop :=
  ∀ snapshot, phase.snapshot? = some snapshot → snapshot = x.session.retained

/-- A call without the lock goes on from nothing. -/
theorem isFresh_of_holds_eq_false {phase : Phase} {x : World} (h : phase.holds = false) :
    phase.IsFresh x := by
  cases phase with
  | waiting | ended answer => exact fun _ => nofun
  | entered | reacting | extracting | writing | leaving => cases h

end Phase

namespace Call

/-- What a call does first with the lock: a build plans, a change is looked at. -/
def enter (call : Call) (p : Project) (x : World) : Phase :=
  match call.request with
  | .build =>
    match p.plan x.tree with
    | .error e => .leaving (.built (.error e))
    | .ok plan => .writing (.build plan) plan.outputs []
  | .change c =>
    match p.react? x.tree c with
    | none => .leaving (.handled .ignored)
    | some r => .reacting c.root r

/-- What a reaction makes of a copy of what is retained. -/
def extract (p : Project) (x : World) (root : WatchRoot) (r : Reaction) (snapshot : WorkingSet) :
    Phase :=
  match p.next? x.tree snapshot root r with
  | none => .leaving (.handled .ignored)
  | some set => .writing (.change r snapshot set) (p.outputs set) []

/-- The next step of a call, if it has not ended. -/
def advance (call : Call) (p : Project) (x : World) : Phase → Option (Phase × World)
  | .waiting =>
    match x.session.acquire? with
    | none => some (.ended call.refusal, x)
    | some session => some (.entered, { x with session })
  | .entered => some (call.enter p x, x)
  | .reacting root r => some (.extracting root r x.session.retained, x)
  | .extracting root r snapshot => some (extract p x root r snapshot, x)
  | .writing job [] results =>
    some (.leaving (job.success results), { x with session.retained := job.set })
  | .writing job ((path, text) :: pending) results =>
    match call.writer.write x.tree path text with
    | (.error e, tree) => some (.leaving (job.failure e), { x with tree })
    | (.ok result, tree) => some (.writing job pending (results ++ [result]), { x with tree })
  | .leaving answer => some (.ended answer, x.release)
  | .ended _ => none

/-- What a reaction comes to that is applied to a copy of what is retained. -/
def react (call : Call) (p : Project) (x : World) (root : WatchRoot) (r : Reaction)
    (snapshot : WorkingSet) : Answer × World :=
  match p.next? x.tree snapshot root r with
  | none => (.handled .ignored, x)
  | some set => (Job.change r snapshot set).complete call.writer x (p.outputs set) []

/-- What a call comes to that is left alone, and the world then. -/
def finish (call : Call) (p : Project) (x : World) : Phase → Answer × World
  | .waiting => call.run p x
  | .entered => leave (call.runLocked p x)
  | .reacting root r => leave (call.react p x root r x.session.retained)
  | .extracting root r snapshot => leave (call.react p x root r snapshot)
  | .writing job pending results => leave (job.complete call.writer x pending results)
  | .leaving answer => leave (answer, x)
  | .ended answer => (answer, x)

end Call

/-! ## What a step does -/

section
variable {p : Project} {call : Call} {x y : World} {phase next : Phase}

/-- A call in one piece comes to what its first step with the lock comes to. -/
theorem Call.finish_enter (call : Call) (p : Project) (x : World) :
    call.finish p x (call.enter p x) = leave (call.runLocked p x) := by
  obtain ⟨_ | c, w⟩ := call
  · rw [enter, runLocked, Project.buildLocked]
    dsimp only
    cases hplan : p.plan x.tree with
    | error e => rfl
    | ok plan =>
      dsimp only [finish, Job.complete]
      rcases w.writeAll x.tree plan.outputs with ⟨e | writes, tree⟩ <;> rfl
  · rw [enter, runLocked]
    dsimp only [Project.handleLocked]
    cases hreact : p.react? x.tree c with
    | none => rfl
    | some r =>
      dsimp only [finish, react]
      cases hnext : p.next? x.tree x.session.retained c.root r with
      | none => rfl
      | some set =>
        dsimp only [Project.commit, Job.complete, Project.outputs]
        rcases w.writeAll x.tree _ with ⟨e | writes, tree⟩ <;> rfl

/-- A reaction comes to what its application comes to. -/
theorem Call.finish_extract (call : Call) (p : Project) (x : World) (root : WatchRoot)
    (r : Reaction) (snapshot : WorkingSet) :
    call.finish p x (extract p x root r snapshot) = leave (call.react p x root r snapshot) := by
  rw [extract, react]
  cases p.next? x.tree snapshot root r <;> rfl

/-- A call comes to the same before and after each of its steps. -/
theorem Call.finish_advance (h : call.advance p x phase = some (next, y)) :
    call.finish p x phase = call.finish p y next := by
  cases phase with
  | waiting =>
    rw [advance] at h
    rw [finish, run_eq]
    cases hlock : x.session.acquire? with
    | none => rw [hlock] at h; cases h; rfl
    | some session => rw [hlock] at h; cases h; rfl
  | entered => cases h; exact (call.finish_enter p x).symm
  | reacting root r => cases h; rfl
  | extracting root r snapshot => cases h; exact (call.finish_extract p x root r snapshot).symm
  | writing job pending results =>
    cases pending with
    | nil =>
      cases h
      rw [finish, finish, Job.complete_nil]
    | cons file pending =>
      obtain ⟨path, text⟩ := file
      rw [advance] at h
      rw [finish, Job.complete_cons]
      rcases hwrite : call.writer.write x.tree path text with ⟨e | result, tree⟩
      · rw [hwrite] at h
        cases h
        rfl
      · rw [hwrite] at h
        cases h
        rfl
  | leaving answer => cases h; rfl
  | ended answer => cases h

/-- What a step does to the lock. -/
inductive Call.Moves (call : Call) (x : World) : Phase → Phase → World → Prop where
  | refused (hlocked : x.session.locked = true) : Moves call x .waiting (.ended call.refusal) x
  | took (hfree : x.session.locked = false) :
      Moves call x .waiting .entered ⟨⟨x.session.retained, true⟩, x.tree⟩
  /-- The lock stays with the call, and what it goes on from stays what is retained. -/
  | worked {phase next : Phase} {y : World} (hphase : phase.holds = true)
      (hnext : next.holds = true) (hlock : y.session.locked = x.session.locked)
      (hfresh : phase.IsFresh x → next.IsFresh y) : Moves call x phase next y
  | left (answer : Answer) : Moves call x (.leaving answer) (.ended answer) x.release

/-- A step does one of these. -/
theorem Call.moves (h : call.advance p x phase = some (next, y)) : call.Moves x phase next y := by
  cases phase with
  | waiting =>
    obtain ⟨⟨retained, _ | _⟩, tree⟩ := x
    · cases h; exact .took rfl
    · cases h; exact .refused rfl
  | entered =>
    cases h
    obtain ⟨_ | c, w⟩ := call
    · dsimp only [enter]
      cases p.plan x.tree with
      | error e => exact .worked rfl rfl rfl fun _ => nofun
      | ok plan => exact .worked rfl rfl rfl fun _ => nofun
    · dsimp only [enter]
      cases p.react? x.tree c with
      | none => exact .worked rfl rfl rfl fun _ => nofun
      | some r => exact .worked rfl rfl rfl fun _ => nofun
  | reacting root r =>
    cases h
    exact .worked rfl rfl rfl fun _ snapshot h => (Option.some.inj h).symm
  | extracting root r snapshot =>
    cases h
    rw [extract]
    cases p.next? x.tree snapshot root r with
    | none => exact .worked rfl rfl rfl fun _ => nofun
    | some set => exact .worked rfl rfl rfl id
  | writing job pending results =>
    cases pending with
    | nil => cases h; exact .worked rfl rfl rfl fun _ => nofun
    | cons file pending =>
      obtain ⟨path, text⟩ := file
      rw [advance] at h
      rcases hwrite : call.writer.write x.tree path text with ⟨e | result, tree⟩
      · rw [hwrite] at h
        cases h
        exact .worked rfl rfl rfl fun _ => nofun
      · rw [hwrite] at h
        cases h
        cases job with
        | build plan => exact .worked rfl rfl rfl fun _ => nofun
        | change r snapshot set => exact .worked rfl rfl rfl id
  | leaving answer => cases h; exact .left answer
  | ended answer => cases h

end

/-! ## Calls together -/

/-- Calls that go on at once. -/
structure Calls (ι : Type) where
  phase : ι → Phase
  world : World
  /-- The calls that took the lock, the first one first. -/
  order : List ι

namespace Calls

variable {ι : Type} [DecidableEq ι]

/-- No call asked for the lock yet. -/
def start (x : World) : Calls ι := ⟨fun _ => .waiting, x, []⟩

/-- A call makes its next step, if it has not ended. -/
def step (s : Calls ι) (call : ι → Call) (p : Project) (i : ι) : Calls ι :=
  match (call i).advance p s.world (s.phase i) with
  | none => s
  | some (next, world) =>
    ⟨Function.update s.phase i next, world,
      if !(s.phase i).holds && next.holds then s.order ++ [i] else s.order⟩

/-- The calls make steps in this order. -/
def run (s : Calls ι) (call : ι → Call) (p : Project) (schedule : List ι) : Calls ι :=
  schedule.foldl (·.step call p ·) s

end Calls

end IpcWiring
