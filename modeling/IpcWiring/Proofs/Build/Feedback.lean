import IpcWiring.Proofs.Build.Fresh

/-!
# Artifacts never come back as sources

A scan of the project finds files that lead down from the root (`Project.Grounded.of_scanned`), and
none of them is an artifact. What happens in a directory that artifacts go to means nothing, because
the scanner of either watched directory leaves it out before anything is asked of the files
(`Project.react?_of_isWithin`). So no build overwrites a file that it read, and what a build writes
or removes sets off no other one (`Project.no_feedback`).
-/

namespace IpcWiring.Project

variable {p : Project} {t : FileTree} {w : Writer} {x : World} {c : Change} {root : WatchRoot}
  {s : Scanner} {q f dir : Path} {a : Emit.Artifact}

/-! ## Files that scans find -/

/-- A scan finds files that lead down from the root, which its scanner accepts, whatever the ignore
files say. -/
theorem Grounded.of_scanned (hp : p.Grounded) (h : t.WellFormed) (hf : p.Scanned t root f) :
    f.Rooted ∧ (t.contentAt? f.place).isSome = true ∧
      ∃ s, p.scannerFor? root = some s ∧ s.accepts f = true := by
  obtain ⟨s, paths, hs, hscan, hf⟩ := hf
  obtain ⟨haccepts, hrooted, hsome, -⟩ :=
    (Scanner.mem_scan_iff_reached h (hp.rooted_scanner hs) hscan).1 hf
  exact ⟨hrooted, hsome, s, hs, haccepts⟩

/-- A scan finds no artifact. -/
theorem Grounded.place_not_mem_of_scanned (hp : p.Grounded) (h : t.WellFormed)
    (hf : p.Scanned t root f) : f.place ∉ p.artifactPlaces := by
  obtain ⟨hrooted, -, s, hs, haccepts⟩ := hp.of_scanned h hf
  exact hp.place_not_mem_of_accepts hrooted hs haccepts

/-! ## What happens in the directories of artifacts -/

/-- Scanners leave out what lies in the directory of an artifact. -/
theorem isExcluded_of_isWithin (hs : p.scannerFor? root = some s)
    (hdir : a.dir? p.emit = some dir) (hq : dir.isWithin q = true) : s.isExcluded q = true := by
  have hall : a ∈ artifacts := by cases a <;> decide
  -- the directory may be listed in the spelling that another artifact has for it
  obtain ⟨e, he, heq⟩ : ∃ e ∈ p.outputDirs, e.components = dir.components :=
    exists_mem_foldl_addNew _ _ (List.mem_filterMap.2 ⟨a, hall, hdir⟩)
  rw [Scanner.isExcluded, excluded_eq_outputDirs hs]
  exact List.any_eq_true.2 ⟨e, he, (Path.isWithin_congr heq rfl).trans hq⟩

/-- A change in the directory of an artifact means nothing, whatever is there. -/
theorem react?_of_isWithin (hdir : a.dir? p.emit = some dir)
    (hc : dir.isWithin c.path.normalize = true) : p.react? t c = none := by
  refine Option.eq_none_iff_forall_ne_some.2 fun r hr => ?_
  cases r with
  | remove q =>
    obtain ⟨rfl, ⟨s, hs, hkept⟩, -⟩ := react?_eq_remove_iff.1 hr
    rw [isExcluded_of_isWithin hs hdir hc] at hkept
    cases hkept
  | update q =>
    obtain ⟨rfl, ⟨s, hs, haccepts⟩, -⟩ := react?_eq_update_iff.1 hr
    have hkept := (Scanner.accepts_imp haccepts).2
    rw [isExcluded_of_isWithin hs hdir hc] at hkept
    cases hkept

/-- A change that means nothing is dropped or ignored, and nothing comes of it. -/
theorem handleChange_of_react?_eq_none (h : p.react? x.tree c = none) :
    p.handleChange w x c = (if x.session.locked then .dropped else .ignored, x) := by
  have hhandled := p.handled w x c
  generalize p.handleChange w x c = result at hhandled ⊢
  obtain ⟨outcome, y⟩ := result
  cases hhandled with
  | dropped hlocked => rw [hlocked]; rfl
  | ignored hlocked => rw [hlocked]; rfl
  | failed hleads | done hleads =>
    have hreact := hleads.reaction
    rw [h] at hreact
    cases hreact

/-! ## No feedback -/

/-- **No feedback.** In every world that a session reaches, a file that a scan of either watched
directory finds is there and is none of the files that are generated, from whatever working set, so
that neither a build nor a change touches it. A change of any kind at or below the directory of an
artifact, however its path is spelled and whether anything is there or not, is ignored, or dropped
while the lock is taken, and leaves the session and all files as they were. -/
theorem no_feedback {base : Path} {config : Config} (hp : ofConfig base config = .ok p)
    (hbase : base.isAbsolute = true) (hclimbs : p.climbs = false) (hx : p.Reachable x) :
    (∀ root f, p.Scanned x.tree root f → ∃ content, x.tree.contentAt? f.place = some content ∧
      (∀ set, ∀ g ∈ Emit.generate p.emit set, g.path.place ≠ f.place) ∧
      ∀ w, (p.build w x).2.tree.contentAt? f.place = some content ∧
        ∀ c, (p.handleChange w x c).2.tree.contentAt? f.place = some content) ∧
    ∀ a dir, Emit.Artifact.dir? p.emit a = some dir → ∀ c, dir.isWithin c.path.normalize = true →
      ∀ w, p.handleChange w x c = (if x.session.locked then .dropped else .ignored, x) := by
  have hgrounded := grounded_of_ofConfig hp hbase hclimbs
  have hwf := (hx.sound hgrounded.toValid).tree
  refine ⟨fun root f hf => ?_, fun a dir hdir c hc w =>
    handleChange_of_react?_eq_none (react?_of_isWithin hdir hc)⟩
  obtain ⟨-, hsome, -⟩ := hgrounded.of_scanned hwf hf
  obtain ⟨content, hcontent⟩ := Option.isSome_iff_exists.1 hsome
  have hnot := hgrounded.place_not_mem_of_scanned hwf hf
  refine ⟨content, hcontent, fun set g hg heq => hnot (heq ▸ place_mem_artifactPlaces hg),
    fun w => ⟨?_, fun c => ?_⟩⟩
  · exact ((hgrounded.writtenAt_build hwf w).contentAt?_eq hnot).symm.trans hcontent
  · exact ((hgrounded.writtenAt_change hwf w c).contentAt?_eq hnot).symm.trans hcontent

/-- The session of the small project reads the file for functions, and then the artifacts that this
writes are deleted again. -/
theorem Small.exists_updated (hp : p.Small) : ∃ x, p.Reachable x ∧
    x.tree = smallTree [smallApiDir] [smallApiFile] ∧ x.session.locked = false ∧
      x.session.retained.api ≠ [] := by
  let tree := smallTree [smallApiDir] [smallApiFile]
  have hwf : tree.WellFormed := by decide +kernel
  have hread : tree.contentAt? smallApiFile = some ByteArray.empty := by decide +kernel
  have hfree : tree.IsFree p.artifactPlaces :=
    hp.isFree hwf (by decide +kernel) (by decide +kernel)
  obtain ⟨hrooted, -, m, hm, -⟩ := exists_read_small hwf smallApiFile_mem hread
  have hreact := hp.react?_apiFile hwf hread
  obtain ⟨hwell, hunlocked⟩ := hp.well_change (x := ⟨.initial, tree⟩) hwf rfl hfree smallUpdate
  have hedited := edited_of_change (x := ⟨.initial, tree⟩) WorkingSet.isSorted_empty hwell
  have hmem := hedited.mem_api WorkingSet.isSorted_empty rfl hreact
    ((mem_foundApi_iff hwf hrooted.full).2 ⟨m, hm, rfl⟩)
  exact ⟨_, ((Reachable.start hwf).step (.change .standard smallUpdate _)).step (.edit hwf _), rfl,
    hunlocked, List.ne_nil_of_mem hmem⟩

/-- So it is where functions are retained and an artifact is said to be deleted, by a path that goes
around. -/
theorem no_feedback_small : ∃ p x f content c dir, ofConfig ⟨"/proj"⟩ smallConfig = .ok p ∧
    p.Reachable x ∧ x.session.retained.api ≠ [] ∧ p.Scanned x.tree .api f ∧
    (p.build .standard x).2.tree.contentAt? f.place = some content ∧
    Emit.Artifact.dir? p.emit .handlers = some dir ∧ dir.isWithin c.path.normalize = true ∧
    x.tree.contains c.path.normalize = false ∧ p.handleChange .standard x c = (.ignored, x) := by
  obtain ⟨p, hp, hclimbs, hsmall⟩ := exists_small
  obtain ⟨x, hx, htree, hunlocked, hretained⟩ := hsmall.exists_updated
  obtain ⟨hsources, hignored⟩ := no_feedback hp (by decide) hclimbs hx
  obtain ⟨paths, hscan, hne⟩ := hsmall.exists_scan (t := smallTree [smallApiDir] [smallApiFile])
    (by decide +kernel) (by decide +kernel) (by decide +kernel)
  obtain ⟨f, hf⟩ := List.exists_mem_of_ne_nil paths hne
  have hscanned : p.Scanned x.tree .api f := ⟨_, paths, rfl, htree ▸ hscan, hf⟩
  obtain ⟨content, -, -, hkept⟩ := hsources .api f hscanned
  -- the path that goes around leads to the artifact in the end
  let c : Change := ⟨.remove, ⟨"/proj/src/api/..//main/./ipc/handlers.ts"⟩, .api⟩
  have hnormal : c.path.normalize = FileTree.pathOf (smallEventDir ++ ["ipc", "handlers.ts"]) :=
    congrArg Path.mk (by decide +kernel)
  obtain ⟨hgoes, hplace⟩ := Path.rooted_pathOf
    (by decide : ∀ s ∈ smallEventDir ++ ["ipc", "handlers.ts"], IsEntryName s)
  have hdir : p.emit.dirs.main.Rooted :=
    hsmall.rooted _ (mem_directories.2 (.inr (.inr ⟨.handlers, rfl⟩)))
  have hwithin : p.emit.dirs.main.isWithin c.path.normalize = true := by
    rw [hnormal, hdir.isWithin_iff hgoes, hplace, ← hsmall.handlers, Emit.Artifact.fileIn,
      (hdir.join (isEntryName_fileName .handlers)).2]
    exact List.prefix_append _ _
  have hmissing : x.tree.contains c.path.normalize = false := by
    rw [htree]
    decide +kernel
  have hignored := hignored .handlers _ rfl c hwithin .standard
  rw [hunlocked, if_neg Bool.false_ne_true] at hignored
  exact ⟨p, x, f, content, c, _, hp, hx, hretained, hscanned, (hkept .standard).1, rfl, hwithin,
    hmissing, hignored⟩

end IpcWiring.Project
