import IpcWiring.Proofs.Build.Edits

/-!
# What is planned

A plan records what is extracted from the files that the scanners find (`Project.plan_eq_ok`), each
file once (`Project.isSorted_planned`), and its files are those that are generated from the working
set, unless no file with functions is found.
-/

namespace IpcWiring.Project

variable {p : Project} {t : FileTree} {paths : List Path}

/-! ## Scanners of a project -/

/-- The scanner of functions has a resolved root. -/
theorem Valid.resolved_apiScanner (hp : p.Valid) : p.apiScanner.root.Resolved := hp.sourceDir

/-- The scanner of events has a resolved root. -/
theorem Valid.resolved_eventScanner (hp : p.Valid) {s : Scanner} (hs : p.eventScanner? = some s) :
    s.root.Resolved := by
  obtain ⟨dir, hdir, rfl⟩ := Option.map_eq_some_iff.1 hs
  exact hp.eventDir dir hdir

/-- Normalizing changes nothing on the paths that a scan finds. -/
theorem map_normalize_of_scan {s : Scanner} (h : t.WellFormed) (hroot : s.root.Resolved)
    (hs : s.scan t = .ok paths) : paths.map Path.normalize = paths := by
  conv_rhs => rw [← List.map_id paths]
  exact List.map_congr_left fun q hq =>
    (Scanner.resolved_of_mem_scan h hroot hs hq).normalize_eq

/-! ## Planned records -/

/-- The functions of the files that a scan finds. -/
def plannedApi (p : Project) (t : FileTree) (paths : List Path) : List ApiRecord :=
  (extractFiles (program t paths) (apiFunctions p.rules (program t paths)) paths).records

/-- The events of the files that a scan finds. -/
def plannedEvents (t : FileTree) (paths : List Path) : List EventRecord :=
  (extractFiles (program t paths) (apiEvents (program t paths)) paths).records

/-- The events of a project are those of the files that its scanner finds, if it has one and the
directory is there. -/
theorem allEvents?_eq_some (hp : p.Valid) (h : t.WellFormed) {records : List EventRecord} :
    (p.allEvents? t).map (·.records) = some records ↔
      ∃ s paths, p.eventScanner? = some s ∧ s.scan t = .ok paths ∧
        records = plannedEvents t paths := by
  rw [allEvents?]
  cases hs : p.eventScanner? with
  | none => simp
  | some s =>
    rw [Option.bind_eq_bind, Option.bind_some]
    cases hscan : s.scan t with
    | ok paths =>
      have hnormal := map_normalize_of_scan h (hp.resolved_eventScanner hs) hscan
      simp [hscan, extractEvents, IpcWiring.extractEvents, hnormal, plannedEvents, eq_comm]
    | error e =>
      cases e
      simp [hscan]

/-- The working set of a plan. -/
structure Planned (p : Project) (t : FileTree) (paths : List Path) (set : WorkingSet) : Prop where
  api : set.api = Record.sortAll (p.plannedApi t paths)
  events? : set.events? = ((p.allEvents? t).map (·.records)).map Record.sortAll

/-- What a plan has: nothing if no file with functions is found, else what is extracted from the
files that are found, with the files that are generated from that. -/
theorem plan_eq_ok (hp : p.Valid) (h : t.WellFormed) {plan : Plan} (hplan : p.plan t = .ok plan) :
    ∃ paths, p.apiScanner.scan t = .ok paths ∧ (paths = [] ∧ plan = .empty ∨
      paths ≠ [] ∧ p.Planned t paths plan.workingSet ∧
        plan.files = Emit.generate p.emit plan.workingSet) := by
  rw [Project.plan] at hplan
  obtain ⟨paths, hscan, hplan⟩ := bind_eq_ok_iff.1 hplan
  have hok : p.apiScanner.scan t = .ok paths := by
    cases hs : p.apiScanner.scan t with
    | error e => rw [hs] at hscan; cases hscan
    | ok found => rw [hs] at hscan; rw [Except.ok.inj hscan]
  refine ⟨paths, hok, ?_⟩
  by_cases hnil : paths = []
  · subst hnil
    cases hplan
    exact .inl ⟨rfl, rfl⟩
  · have hempty : paths.isEmpty = false := by simpa using hnil
    have hnormal := map_normalize_of_scan h hp.resolved_apiScanner hok
    rw [hempty] at hplan
    cases hplan
    refine .inr ⟨hnil, ⟨?_, ?_⟩, rfl⟩
    · simp [WorkingSet.sort, extractApi, IpcWiring.extractApi, hnormal, plannedApi, Record.merge]
    · simp [WorkingSet.sort]

/-- The files of a plan that is made from a working set are those that are written for it. -/
theorem outputs_eq {plan : Plan} (h : plan.files = Emit.generate p.emit plan.workingSet) :
    plan.outputs = p.outputs plan.workingSet := by
  rw [Plan.outputs, outputs, h]

/-- A plan succeeds where the directory of functions can be scanned. -/
theorem exists_plan (hp : p.Valid) (h : t.WellFormed) (hscan : p.apiScanner.scan t = .ok paths)
    (hne : paths ≠ []) : ∃ plan, p.plan t = .ok plan ∧ p.Planned t paths plan.workingSet ∧
      plan.files = Emit.generate p.emit plan.workingSet := by
  have hempty : paths.isEmpty = false := by simpa using hne
  obtain ⟨plan, hplan⟩ : ∃ plan, p.plan t = .ok plan := by
    rw [Project.plan, hscan]
    simp [Except.mapError, hempty, bind, Except.bind, pure, Except.pure]
  obtain ⟨paths', hscan', hcases⟩ := plan_eq_ok hp h hplan
  obtain rfl := Except.ok.inj (hscan.symm.trans hscan')
  rcases hcases with ⟨hnil, -⟩ | ⟨-, hplanned⟩
  exacts [absurd hnil hne, ⟨plan, hplan, hplanned⟩]

/-- What is extracted from some files is recorded under their paths. -/
theorem mem_of_mem_extractFiles {α : Type} {program : Program}
    {extract : Path → SourceModule → List α × List Skipped} {r : Record α}
    (h : r ∈ (extractFiles program extract paths).records) : r.path ∈ paths := by
  obtain ⟨f, hf, m, -, rfl⟩ := mem_extractFiles.1 h
  exact hf

/-- The functions of distinct files are sorted. -/
theorem isSorted_plannedApi (h : paths.Pairwise fun p q => p.components ≠ q.components) :
    Record.IsSorted (Record.sortAll (p.plannedApi t paths)) :=
  (isDistinct_extractFiles h fun path m _ =>
    nodup_apiFunctions p.rules _ path m).isSorted_sortAll

/-- The events of distinct files are sorted. -/
theorem isSorted_plannedEvents (h : paths.Pairwise fun p q => p.components ≠ q.components) :
    Record.IsSorted (Record.sortAll (plannedEvents t paths)) :=
  (isDistinct_extractFiles h fun _ _ hm =>
    nodup_apiEvents (aliasesNamed_of_module? hm)).isSorted_sortAll

/-- The events that are planned: none at all, or those of the files that a scan finds. -/
theorem Planned.events?_eq (hp : p.Valid) (h : t.WellFormed) {set : WorkingSet}
    (hset : p.Planned t paths set) : set.events? = none ∨
      ∃ s found, p.eventScanner? = some s ∧ s.scan t = .ok found ∧
        set.events? = some (Record.sortAll (plannedEvents t found)) := by
  cases hall : (p.allEvents? t).map (·.records) with
  | none => exact .inl (by rw [hset.events?, hall, Option.map_none])
  | some records =>
    obtain ⟨s, found, hs, hscan, rfl⟩ := (allEvents?_eq_some hp h).1 hall
    exact .inr ⟨s, found, hs, hscan, by rw [hset.events?, hall, Option.map_some]⟩

/-- What is planned is sorted, as a scan finds every file once. -/
theorem Planned.isSorted (hp : p.Valid) (h : t.WellFormed)
    (hscan : p.apiScanner.scan t = .ok paths) {set : WorkingSet} (hset : p.Planned t paths set) :
    set.IsSorted := by
  constructor
  · rw [hset.api]
    exact isSorted_plannedApi (Scanner.pairwise_of_scan h hp.resolved_apiScanner hscan)
  · rw [WorkingSet.events]
    rcases hset.events?_eq hp h with hnone | ⟨s, found, hs, hscan, hsome⟩
    · rw [hnone]
      exact Record.isSorted_nil
    · rw [hsome, Option.getD_some]
      exact isSorted_plannedEvents
        (Scanner.pairwise_of_scan h (hp.resolved_eventScanner hs) hscan)

end IpcWiring.Project
