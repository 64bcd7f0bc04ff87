import IpcWiring.Proofs.Build.Written

/-!
# All or nothing

A build or change that does not end well leaves the session as it was, and one that ends well leaves
the artifacts current, whatever earlier ones left behind (`Project.all_or_nothing`).
-/

namespace IpcWiring.Project

variable {p : Project} {w : Writer} {x : World}

/-- A build that ends in an error leaves the session as it was. -/
theorem session_of_build_error {e : BuildError} (h : (p.build w x).1 = .error e) :
    (p.build w x).2.session = x.session := by
  have hbuilt := p.built w x
  rw [h] at hbuilt
  generalize (p.build w x).2 = y at hbuilt ⊢
  cases hbuilt <;> rfl

/-- A change that was dropped or ignored, or whose files could not be written, leaves the session as
it was. -/
theorem session_of_change {c : Change} (h : (p.handleChange w x c).1 = .dropped ∨
      (p.handleChange w x c).1 = .ignored ∨ ∃ e, (p.handleChange w x c).1 = .failed e) :
    (p.handleChange w x c).2.session = x.session := by
  have hhandled := p.handled w x c
  generalize (p.handleChange w x c).1 = outcome, (p.handleChange w x c).2 = y at hhandled h ⊢
  cases hhandled with
  | dropped | ignored | failed => rfl
  | @done r =>
    cases r <;> rcases h with h | h | ⟨e, h⟩ <;> cases h

/-- **All or nothing.** A build or change that does not end well leaves what is retained, and the
lock, as they were. One that ends well leaves every artifact with the text that is generated from
what is retained then, if the project does not climb above the root, files are written at all and,
in a build, there are functions. What is in the files before does not count, so artifacts that an
earlier failure left behind half written are repaired. -/
theorem all_or_nothing (p : Project) (w : Writer) (x : World) :
    (∀ c, ((p.handleChange w x c).1 = .dropped ∨ (p.handleChange w x c).1 = .ignored ∨
        ∃ e, (p.handleChange w x c).1 = .failed e) →
      (p.handleChange w x c).2.session = x.session) ∧
    (∀ e, (p.build w x).1 = .error e → (p.build w x).2.session = x.session) ∧
    ∀ base config, ofConfig base config = .ok p → base.isAbsolute = true → p.climbs = false →
      x.tree.WellFormed → w.dryRun = false →
      (∀ c q n, ((p.handleChange w x c).1 = .updated q n ∨
          (p.handleChange w x c).1 = .removed q n) →
        p.Current (p.handleChange w x c).2) ∧
      ∀ out paths, (p.build w x).1 = .ok out → p.apiScanner.scan x.tree = .ok paths → paths ≠ [] →
        p.Current (p.build w x).2 := by
  refine ⟨fun c => session_of_change, fun e => session_of_build_error,
    fun base config hp hbase hclimbs h hw => ?_⟩
  have hgrounded := grounded_of_ofConfig hp hbase hclimbs
  refine ⟨fun c q n hchange => ?_, fun out paths hbuild hscan hne =>
    (hgrounded.planned_of_build h hw hbuild hscan hne).2⟩
  rcases hchange with hupdated | hremoved
  · exact hgrounded.current_of_change (r := .update q) h hw hupdated
  · exact hgrounded.current_of_change (r := .remove q) h hw hremoved

/-- So it is for a build of a project that there is, and for one while the lock is taken. -/
theorem all_or_nothing_small : ∃ p x, ofConfig ⟨"/proj"⟩ smallConfig = .ok p ∧
    (∃ out, (p.build .standard x).1 = .ok out) ∧
    Emit.generate p.emit (p.build .standard x).2.session.retained ≠ [] ∧
    p.Current (p.build .standard x).2 ∧
    (p.build .standard ⟨⟨.empty, true⟩, x.tree⟩).2.session = ⟨.empty, true⟩ := by
  obtain ⟨p, hp, hclimbs, hsmall⟩ := exists_small
  have hwf : (smallTree [smallApiDir] [smallApiFile]).WellFormed := by decide +kernel
  obtain ⟨paths, hscan, hne⟩ := hsmall.exists_scan hwf (by decide +kernel) (by decide +kernel)
  obtain ⟨out, hbuild, -⟩ := hsmall.exists_build (x := ⟨.initial, _⟩) hwf rfl
    (hsmall.isFree hwf (by decide +kernel) (by decide +kernel)) hscan hne
  exact ⟨p, _, hp, ⟨out, hbuild⟩, generate_ne_nil p _,
    ((all_or_nothing p .standard _).2.2 _ _ hp (by decide) hclimbs hwf rfl).2 out paths hbuild
      hscan hne, (all_or_nothing p .standard _).2.1 _ rfl⟩

end IpcWiring.Project
