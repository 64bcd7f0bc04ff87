import IpcWiring.Build.Session
import IpcWiring.Proofs.Project

/-!
# Runs of a session

What can come of a build (`Project.Built`) and of a change (`Project.Handled`), each with the world
that it leaves; `Project.built` and `Project.handled` say that nothing else can. A session goes on
by builds and changes while the files are edited between them and others may hold the lock
(`Project.Step`), and reaches the worlds that any number of such steps lead to
(`Project.Reachable`).
-/

namespace IpcWiring.Project

/-- The files that are written for a working set, by path and text. -/
def outputs (p : Project) (set : WorkingSet) : List (Path × String) :=
  (Emit.generate p.emit set).map fun f => (f.path, f.text)

/-! ## Builds -/

/-- What a build can come to, and the world that it leaves. -/
inductive Built (p : Project) (w : Writer) (x : World) :
    Except BuildError BuildOutput → World → Prop where
  | busy (hlocked : x.session.locked = true) : Built p w x (.error .busy) x
  | unplanned {e : BuildError} (hlocked : x.session.locked = false)
      (hplan : p.plan x.tree = .error e) : Built p w x (.error e) x
  | failed {plan : Plan} {e : WriteError} (hlocked : x.session.locked = false)
      (hplan : p.plan x.tree = .ok plan)
      (hwrite : (w.writeAll x.tree plan.outputs).1 = .error e) :
      Built p w x (.error (.write e)) ⟨x.session, (w.writeAll x.tree plan.outputs).2⟩
  | done {plan : Plan} {writes : List WriteResult} (hlocked : x.session.locked = false)
      (hplan : p.plan x.tree = .ok plan)
      (hwrite : (w.writeAll x.tree plan.outputs).1 = .ok writes) :
      Built p w x (.ok ⟨plan, writes⟩)
        ⟨⟨plan.workingSet, false⟩, (w.writeAll x.tree plan.outputs).2⟩

/-- A build comes to one of these. -/
theorem built (p : Project) (w : Writer) (x : World) :
    p.Built w x (p.build w x).1 (p.build w x).2 := by
  obtain ⟨⟨retained, _ | _⟩, tree⟩ := x
  · have hbuild : p.build w ⟨⟨retained, false⟩, tree⟩ =
        ((p.buildLocked w ⟨⟨retained, true⟩, tree⟩).1,
          { (p.buildLocked w ⟨⟨retained, true⟩, tree⟩).2 with
            session := (p.buildLocked w ⟨⟨retained, true⟩, tree⟩).2.session.release }) := rfl
    rw [hbuild, buildLocked]
    cases hplan : p.plan tree with
    | error e => exact .unplanned rfl hplan
    | ok plan =>
      dsimp only
      rcases hwrite : w.writeAll tree plan.outputs with ⟨e | writes, u⟩
      · have h := Built.failed (x := ⟨⟨retained, false⟩, tree⟩) rfl hplan (congrArg Prod.fst hwrite)
        rw [hwrite] at h
        exact h
      · have h := Built.done (x := ⟨⟨retained, false⟩, tree⟩) rfl hplan (congrArg Prod.fst hwrite)
        rw [hwrite] at h
        exact h
  · exact .busy rfl

/-! ## Changes -/

/-- The reaction to a change in a world, with the working set that it leads to. -/
structure Leads (p : Project) (x : World) (c : Change) (r : Reaction) (set : WorkingSet) :
    Prop where
  unlocked : x.session.locked = false
  reaction : p.react? x.tree c = some r
  next : p.next? x.tree x.session.retained c.root r = some set

/-- What a change can come to, and the world that it leaves. -/
inductive Handled (p : Project) (w : Writer) (x : World) (c : Change) : Outcome → World → Prop where
  | dropped (hlocked : x.session.locked = true) : Handled p w x c .dropped x
  | ignored (hlocked : x.session.locked = false)
      (hnext : ∀ r, p.react? x.tree c = some r →
        p.next? x.tree x.session.retained c.root r = none) : Handled p w x c .ignored x
  | failed {r : Reaction} {set : WorkingSet} {e : WriteError} (hleads : p.Leads x c r set)
      (hwrite : (w.writeAll x.tree (p.outputs set)).1 = .error e) :
      Handled p w x c (.failed (.write e)) ⟨x.session, (w.writeAll x.tree (p.outputs set)).2⟩
  | done {r : Reaction} {set : WorkingSet} {writes : List WriteResult} (hleads : p.Leads x c r set)
      (hwrite : (w.writeAll x.tree (p.outputs set)).1 = .ok writes) :
      Handled p w x c (outcomeOf (writes.countP (·.wasWritten)) r)
        ⟨⟨set, false⟩, (w.writeAll x.tree (p.outputs set)).2⟩

/-- A change comes to one of these. -/
theorem handled (p : Project) (w : Writer) (x : World) (c : Change) :
    p.Handled w x c (p.handleChange w x c).1 (p.handleChange w x c).2 := by
  obtain ⟨⟨retained, _ | _⟩, tree⟩ := x
  · have hchange : p.handleChange w ⟨⟨retained, false⟩, tree⟩ c =
        ((p.handleLocked w c ⟨⟨retained, true⟩, tree⟩).1,
          { (p.handleLocked w c ⟨⟨retained, true⟩, tree⟩).2 with
            session := (p.handleLocked w c ⟨⟨retained, true⟩, tree⟩).2.session.release }) := rfl
    rw [hchange, handleLocked]
    dsimp only
    cases hreact : p.react? tree c with
    | none => exact .ignored rfl fun r hr => by rw [hreact] at hr; cases hr
    | some r =>
      dsimp only
      cases hnext : p.next? tree retained c.root r with
      | none =>
        refine .ignored rfl fun r' hr' => ?_
        obtain rfl : r = r' := Option.some.inj (hreact.symm.trans hr')
        exact hnext
      | some set =>
        have hleads : p.Leads ⟨⟨retained, false⟩, tree⟩ c r set := ⟨rfl, hreact, hnext⟩
        dsimp only [commit]
        rcases hwrite : w.writeAll tree (p.outputs set) with ⟨e | writes, u⟩
        · have h := Handled.failed hleads (congrArg Prod.fst hwrite)
          rw [hwrite] at h
          rw [outputs] at hwrite
          rw [hwrite]
          exact h
        · have h := Handled.done hleads (congrArg Prod.fst hwrite)
          rw [hwrite] at h
          rw [outputs] at hwrite
          rw [hwrite]
          exact h
  · exact .dropped rfl

/-- What comes of changes that are handled one after another. -/
def handleAll (p : Project) (w : Writer) (x : World) : List Change → List Outcome × World
  | [] => ([], x)
  | c :: cs =>
    let (outcome, y) := p.handleChange w x c
    let (outcomes, z) := p.handleAll w y cs
    (outcome :: outcomes, z)

/-- The outcomes tell that nothing was in the way of the changes: none was dropped, and no file
could not be written. -/
def AllWell (outcomes : List Outcome) : Prop :=
  ∀ o ∈ outcomes, o ≠ .dropped ∧ ∀ e, o ≠ .failed e

/-! ## Runs -/

/-- What happens to a world: a build, a change, an edit of the files, or that someone else takes or
gives back the lock. -/
inductive Step (p : Project) : World → World → Prop where
  | build (w : Writer) (x : World) : Step p x (p.build w x).2
  | change (w : Writer) (c : Change) (x : World) : Step p x (p.handleChange w x c).2
  | edit {t : FileTree} (h : t.WellFormed) (x : World) : Step p x { x with tree := t }
  | lock (locked : Bool) (x : World) : Step p x { x with session := { x.session with locked } }

/-- The worlds that a session can get to from a tree of files. -/
inductive Reachable (p : Project) : World → Prop where
  | start {t : FileTree} (h : t.WellFormed) : Reachable p ⟨.initial, t⟩
  | step {x y : World} (h : Reachable p x) (hstep : p.Step x y) : Reachable p y

end IpcWiring.Project
