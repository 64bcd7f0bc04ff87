import IpcWiring.Proofs.Build.Written

/-!
# What a session keeps true

The working set of a session is consistent (`Project.Consistent`): it is sorted strictly, has only
files that the scanners accept, and has events only if there is a directory for them. Plans are
consistent (`Project.isConsistent_of_plan`) and a change keeps a working set so
(`Project.Consistent.edited`), hence it is so in every world that a session reaches, whatever became
of its builds and changes (`Project.retained_isConsistent`).
-/

namespace IpcWiring.Project

variable {p : Project} {t : FileTree} {x : World}

/-- The records are in strict order, each of a file that the scanner of its kind accepts and that no
artifact directory holds; there are events only if there is a directory for them. -/
structure Consistent (p : Project) (set : WorkingSet) : Prop where
  sorted : set.IsSorted
  api : ∀ r ∈ set.api, p.apiScanner.accepts r.path = true ∧
    ∀ dir ∈ p.outputDirs, dir.isWithin r.path = false
  events : ∀ r ∈ set.events, (∃ s, p.eventScanner? = some s ∧ s.accepts r.path = true) ∧
    ∀ dir ∈ p.outputDirs, dir.isWithin r.path = false
  directory : set.events?.isSome = true → p.eventDir?.isSome = true

/-! ## Accepted paths -/

/-- A file whose records are replaced is accepted by the scanner of their kind. -/
theorem accepts_of_mem_edits {α : Type} {root : WatchRoot} {found : Path → List (Record α)}
    {c : Change} {q : Path} {records : List (Record α)}
    (h : .replace q records ∈ p.edits t root found c) :
    ∃ s, p.scannerFor? root = some s ∧ s.accepts q = true := by
  obtain ⟨rfl, hreact, -⟩ := mem_edits_replace.1 h
  exact (react?_eq_update_iff.1 hreact).2.1

/-- The scanners of a project leave out the directories that artifacts go to. -/
theorem excluded_eq_outputDirs {root : WatchRoot} {s : Scanner}
    (hs : p.scannerFor? root = some s) : s.excluded = p.outputDirs := by
  cases root with
  | api =>
    rw [← Option.some.inj hs, apiScanner]
  | events =>
    obtain ⟨dir, -, rfl⟩ := Option.map_eq_some_iff.1 hs
    dsimp only

/-- A path that a scanner of the project accepts lies in no directory that artifacts go to. -/
theorem isWithin_eq_false_of_accepts (root : WatchRoot) {s : Scanner} {q : Path}
    (hs : p.scannerFor? root = some s) (h : s.accepts q = true) :
    ∀ dir ∈ p.outputDirs, dir.isWithin q = false := by
  have hnone := (Scanner.accepts_imp h).2
  rw [Scanner.isExcluded, excluded_eq_outputDirs hs, List.any_eq_false] at hnone
  exact fun dir hdir => Bool.not_eq_true _ ▸ hnone dir hdir

/-- What a record is after compatible edits of the changes, it was before or its file is accepted.
-/
theorem mem_or_accepts_of_mem_foldl {α : Type} [Named α] {root : WatchRoot}
    {found : Path → List (Record α)} {c : Change} {records : List (Record α)}
    (hs : Record.IsSorted records) (hc : Record.Compatible (p.edits t root found c)) {r : Record α}
    (hr : r ∈ (p.edits t root found c).foldl Record.Edit.apply records) :
    r ∈ records ∨ ∃ s, p.scannerFor? root = some s ∧ s.accepts r.path = true := by
  rw [Record.mem_foldl_apply hs hc] at hr
  rcases hr with ⟨e, hedit, found, hfound, rfl⟩ | ⟨hr, -⟩
  · cases e with
    | remove => cases hfound
    | replace q _ =>
      rw [Record.path_sortEntries, hc.path_eq hedit found hfound]
      exact .inr (accepts_of_mem_edits hedit)
  · exact .inl hr

/-! ## Plans and changes -/

/-- The working set without records is consistent. -/
theorem isConsistent_empty (p : Project) : p.Consistent .empty :=
  ⟨WorkingSet.isSorted_empty, nofun, nofun, nofun⟩

/-- The working set of a plan is consistent. -/
theorem isConsistent_of_plan (hp : p.Valid) (h : t.WellFormed) {plan : Plan}
    (hplan : p.plan t = .ok plan) : p.Consistent plan.workingSet := by
  obtain ⟨paths, hscan, ⟨-, rfl⟩ | ⟨-, hplanned, -⟩⟩ := plan_eq_ok hp h hplan
  · exact isConsistent_empty p
  have hfound := hplanned.events?_eq hp h
  refine ⟨hplanned.isSorted hp h hscan, fun r hr => ?_, fun r hr => ?_, fun hsome => ?_⟩
  · rw [hplanned.api] at hr
    obtain ⟨r', hr', rfl⟩ := Record.mem_sortAll.1 hr
    have haccepts := ((Scanner.mem_scan_iff h hp.resolved_apiScanner hscan).1
      (mem_of_mem_extractFiles hr')).1
    rw [Record.path_sortEntries]
    exact ⟨haccepts, isWithin_eq_false_of_accepts .api rfl haccepts⟩
  · rcases hfound with hnone | ⟨s, paths, hs, hscan, hsome⟩
    · rw [WorkingSet.events, hnone] at hr
      cases hr
    · rw [WorkingSet.events, hsome, Option.getD_some] at hr
      obtain ⟨r', hr', rfl⟩ := Record.mem_sortAll.1 hr
      have haccepts := ((Scanner.mem_scan_iff h (hp.resolved_eventScanner hs) hscan).1
        (mem_of_mem_extractFiles hr')).1
      rw [Record.path_sortEntries]
      exact ⟨⟨s, hs, haccepts⟩, isWithin_eq_false_of_accepts .events hs haccepts⟩
  · rcases hfound with hnone | ⟨s, -, hs, -⟩
    · rw [hnone] at hsome
      cases hsome
    · obtain ⟨dir, hdir, -⟩ := Option.map_eq_some_iff.1 hs
      rw [hdir]
      rfl

/-- The edits of a single change are compatible. -/
theorem compatible_edits_singleton {α : Type} [Named α] {root : WatchRoot}
    {found : Path → List (Record α)} (hdistinct : ∀ q, Record.IsDistinct (found q))
    (hpath : ∀ q, ∀ r ∈ found q, r.path = q) (c : Change) :
    Record.Compatible (p.edits t root found c) := by
  have h : Record.Compatible ([c].flatMap (p.edits t root found)) :=
    compatible_edits hdistinct hpath fun c hc d hd q dir hupdate hremove => by
      rw [List.mem_singleton.1 hc] at hupdate
      rw [List.mem_singleton.1 hd, hupdate] at hremove
      cases hremove
  simpa using h

/-- A change keeps a working set consistent. -/
theorem Consistent.edited {c : Change} {set set' : WorkingSet} (h : p.Consistent set)
    (he : p.Edited t c set set') : p.Consistent set' := by
  have hcapi : Record.Compatible (p.apiEdits t c) :=
    compatible_edits_singleton (isDistinct_foundApi p t) (fun _ _ => path_of_mem_extractFiles) c
  have hcevents : Record.Compatible (p.eventEdits t c) :=
    compatible_edits_singleton (isDistinct_foundEvents t) (fun _ _ => path_of_mem_extractFiles) c
  refine ⟨⟨?_, ?_⟩, fun r hr => ?_, fun r hr => ?_, fun hsome => ?_⟩
  · rw [he.api]
    exact h.sorted.api.foldl_apply hcapi
  · rw [he.events]
    exact h.sorted.events.foldl_apply hcevents
  · rw [he.api] at hr
    rcases mem_or_accepts_of_mem_foldl h.sorted.api hcapi hr with hr | ⟨s, hs, haccepts⟩
    · exact h.api r hr
    · have hout := isWithin_eq_false_of_accepts _ hs haccepts
      cases hs
      exact ⟨haccepts, hout⟩
  · rw [he.events] at hr
    rcases mem_or_accepts_of_mem_foldl h.sorted.events hcevents hr with hr | ⟨s, hs, haccepts⟩
    exacts [h.events r hr, ⟨⟨s, hs, haccepts⟩, isWithin_eq_false_of_accepts _ hs haccepts⟩]
  · rw [he.isSome, Bool.or_eq_true] at hsome
    rcases hsome with hsome | hany
    · exact h.directory hsome
    · obtain ⟨e, hedit, hreplaces⟩ := List.any_eq_true.1 hany
      cases e with
      | remove => cases hreplaces
      | replace =>
        obtain ⟨s, hs, -⟩ := accepts_of_mem_edits hedit
        obtain ⟨dir, hdir, -⟩ := Option.map_eq_some_iff.1 hs
        rw [hdir]
        rfl

/-! ## Worlds -/

/-- The files are well-formed and the working set is consistent. -/
structure Sound (p : Project) (x : World) : Prop where
  tree : x.tree.WellFormed
  retained : p.Consistent x.session.retained

/-- The working set of a build that ended well is consistent. -/
theorem isConsistent_of_build (hp : p.Valid) (h : x.tree.WellFormed) {w : Writer}
    {out : BuildOutput} (hbuild : (p.build w x).1 = .ok out) :
    p.Consistent (p.build w x).2.session.retained := by
  have hbuilt := p.built w x
  rw [hbuild] at hbuilt
  generalize (p.build w x).2 = y at hbuilt ⊢
  cases hbuilt with
  | done _ hplan => exact isConsistent_of_plan hp h hplan

/-- A build keeps a world sound, whatever comes of it. -/
theorem Sound.build (hp : p.Valid) (h : p.Sound x) (w : Writer) : p.Sound (p.build w x).2 := by
  refine ⟨(hp.writtenAt_build h.tree w).wellFormed, ?_⟩
  have hbuilt := p.built w x
  generalize (p.build w x).1 = result, (p.build w x).2 = y at hbuilt
  cases hbuilt with
  | busy | unplanned | failed => exact h.retained
  | done _ hplan _ => exact isConsistent_of_plan hp h.tree hplan

/-- A change keeps a world sound, whatever comes of it. -/
theorem Sound.change (hp : p.Valid) (h : p.Sound x) (w : Writer) (c : Change) :
    p.Sound (p.handleChange w x c).2 := by
  refine ⟨(hp.writtenAt_change h.tree w c).wellFormed, ?_⟩
  have hhandled := p.handled w x c
  generalize (p.handleChange w x c).1 = outcome, (p.handleChange w x c).2 = y at hhandled
  cases hhandled with
  | dropped | ignored | failed => exact h.retained
  | done hleads =>
    exact h.retained.edited (edited_of_next? h.retained.sorted hleads.reaction hleads.next)

/-- Every step keeps a world sound. -/
theorem Sound.step (hp : p.Valid) {y : World} (h : p.Sound x) (hs : p.Step x y) : p.Sound y := by
  cases hs with
  | build w => exact h.build hp w
  | change w c => exact h.change hp w c
  | edit ht => exact ⟨ht, h.retained⟩
  | lock => exact ⟨h.tree, h.retained⟩

/-- Every world that is reached is sound. -/
theorem Reachable.sound (hp : p.Valid) (h : p.Reachable x) : p.Sound x := by
  induction h with
  | start ht => exact ⟨ht, isConsistent_empty p⟩
  | step _ hs ih => exact ih.step hp hs

/-- **The invariant of the working set.** In every world that a session reaches the working set is
consistent, whatever became of the builds and changes that led there and however the files were
edited between them. -/
theorem retained_isConsistent {base : Path} {config : Config} (hp : ofConfig base config = .ok p)
    (hx : p.Reachable x) : p.Consistent x.session.retained :=
  (hx.sound (valid_of_ofConfig hp)).retained

/-- So it is in a world with a record, which a change has led to. -/
theorem retained_isConsistent_small : ∃ p x, ofConfig ⟨"/proj"⟩ smallConfig = .ok p ∧
    p.Reachable x ∧ x.session.retained.api ≠ [] ∧ p.Consistent x.session.retained := by
  obtain ⟨p, hp, -, hsmall⟩ := exists_small
  let tree := smallTree [smallApiDir] [smallApiFile]
  have hwf : tree.WellFormed := by decide +kernel
  have hfree : tree.IsFree p.artifactPlaces :=
    hsmall.isFree hwf (by decide +kernel) (by decide +kernel)
  obtain ⟨hrooted, -, m, hm, -⟩ := exists_read_small hwf smallApiFile_mem (by decide +kernel)
  have hreact := hsmall.react?_apiFile hwf (by decide +kernel)
  have hedited := edited_of_change (x := ⟨.initial, tree⟩) WorkingSet.isSorted_empty
    (hsmall.well_change hwf rfl hfree smallUpdate).1
  refine ⟨p, _, hp, (Reachable.start hwf).step (.change .standard smallUpdate _), fun hnil => ?_,
    retained_isConsistent hp ((Reachable.start hwf).step (.change .standard smallUpdate _))⟩
  obtain ⟨r, hr⟩ : ∃ r, r ∈ p.foundApi tree (FileTree.pathOf smallApiFile) :=
    ⟨_, (mem_foundApi_iff hwf hrooted.full).2 ⟨m, hm, rfl⟩⟩
  have hmem := hedited.mem_api WorkingSet.isSorted_empty rfl hreact hr
  rw [hnil] at hmem
  cases hmem

end IpcWiring.Project
