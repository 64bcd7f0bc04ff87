import IpcWiring.Proofs.Build.Confluence

/-!
# Working sets that a fresh plan would have

A working set is fresh on a tree (`Project.Fresh`) if it has just what is found in the files that a
scan of the tree finds, each taken by itself. There is only one such working set
(`Project.Fresh.eq`). On a tree that is clean (`Project.Clean`) the working set of a plan is fresh
(`Project.Planned.fresh`), because what is found in a file does not depend on the other files that
are read along with it; and a fresh working set stays so when artifacts are written
(`Project.Fresh.of_writtenAt`).
-/

namespace IpcWiring.Project

variable {p : Project} {t u : FileTree} {root : WatchRoot} {s : Scanner} {q f : Path}

/-! ## Scanned files -/

/-- A scan of the watched directory finds the file. -/
def Scanned (p : Project) (t : FileTree) (root : WatchRoot) (f : Path) : Prop :=
  ∃ s paths, p.scannerFor? root = some s ∧ s.scan t = .ok paths ∧ f ∈ paths

/-- The watched directories are there. -/
def Ready (p : Project) (t : FileTree) : Prop :=
  ∀ root s, p.scannerFor? root = some s → t.isDirectoryAt s.root.place = true

/-- No ignore file hides anything, all files that are read have modules, and none of them is an
artifact. -/
structure Clean (p : Project) (t : FileTree) : Prop where
  noIgnore : t.hasIgnoreFiles = false
  parses : ∀ root f, p.Scanned t root f →
    ∀ q, (Disk.ofTree t).Reaches f q → ((Disk.ofTree t).read q).isSome = true
  apart : ∀ root f, p.Scanned t root f →
    ∀ q, (Disk.ofTree t).Reaches f q → q.place ∉ p.artifactPlaces

/-- The scanners of a grounded project look below the root. -/
theorem Grounded.rooted_scanner (hp : p.Grounded) (hs : p.scannerFor? root = some s) :
    s.root.Rooted := hp.rooted _ (root_mem_directories hs)

/-- Without ignore files a scan finds the files that are accepted by their paths. -/
theorem Grounded.scanned_iff (hp : p.Grounded) (h : t.WellFormed) (hnone : t.hasIgnoreFiles = false)
    (hready : p.Ready t) : p.Scanned t root f ↔ f.Rooted ∧ (t.contentAt? f.place).isSome = true ∧
      ∃ s, p.scannerFor? root = some s ∧ s.accepts f = true := by
  constructor
  · rintro ⟨s, paths, hs, hscan, hf⟩
    obtain ⟨haccepts, hrooted, hsome⟩ :=
      (Scanner.mem_scan_iff_accepts h hnone (hp.rooted_scanner hs) hscan).1 hf
    exact ⟨hrooted, hsome, s, hs, haccepts⟩
  · rintro ⟨hrooted, hsome, s, hs, haccepts⟩
    have hroot := hp.rooted_scanner hs
    obtain ⟨paths, hscan⟩ := Scanner.exists_scan h hroot (hready root s hs)
    exact ⟨s, paths, hs, hscan,
      (Scanner.mem_scan_iff_accepts h hnone hroot hscan).2 ⟨haccepts, hrooted, hsome⟩⟩

/-- On a clean tree a scan finds files that lead down from the root. -/
theorem Clean.rooted (hp : p.Grounded) (h : t.WellFormed) (hclean : p.Clean t)
    (hf : p.Scanned t root f) : f.Rooted := by
  obtain ⟨s, paths, hs, hscan, hf⟩ := hf
  exact ((Scanner.mem_scan_iff_accepts h hclean.noIgnore (hp.rooted_scanner hs) hscan).1 hf).2.1

/-- A scan finds no artifact. -/
theorem Grounded.place_not_mem_of_accepts (hp : p.Grounded) (hf : f.Rooted)
    (hs : p.scannerFor? root = some s) (h : s.accepts f = true) : f.place ∉ p.artifactPlaces :=
  fun hin => by
    obtain ⟨dir, hdir, hwithin⟩ := hp.exists_outputDir hf hin
    rw [isWithin_eq_false_of_accepts root hs h dir hdir] at hwithin
    cases hwithin

/-! ## Fresh working sets -/

/-- The working set has just what is found in each file that a scan finds. -/
structure Fresh (p : Project) (t : FileTree) (set : WorkingSet) : Prop where
  sorted : set.IsSorted
  api : ∀ r, r ∈ set.api ↔
    ∃ f, p.Scanned t .api f ∧ ∃ s ∈ p.foundApi t f, s.sortEntries = r
  events : ∀ r, r ∈ set.events ↔
    ∃ f, p.Scanned t .events f ∧ ∃ s ∈ foundEvents t f, s.sortEntries = r
  isSome : set.events?.isSome = p.eventDir?.isSome

/-- There is only one fresh working set. -/
theorem Fresh.eq {set set' : WorkingSet} (h : p.Fresh t set) (h' : p.Fresh t set') : set = set' :=
  WorkingSet.ext_events (h.sorted.api.ext h'.sorted.api fun r => (h.api r).trans (h'.api r).symm)
    (h.sorted.events.ext h'.sorted.events fun r => (h.events r).trans (h'.events r).symm)
    (h.isSome.trans h'.isSome.symm)

/-- The files that a scan finds are those that were found. -/
theorem scanned_iff_mem (hs : p.scannerFor? root = some s) {paths : List Path}
    (hscan : s.scan t = .ok paths) : p.Scanned t root f ↔ f ∈ paths := by
  refine ⟨fun ⟨s', paths', hs', hscan', hf⟩ => ?_, fun hf => ⟨s, paths, hs, hscan, hf⟩⟩
  obtain rfl := Option.some.inj (hs.symm.trans hs')
  rw [Except.ok.inj (hscan.symm.trans hscan')]
  exact hf

/-- What is extracted from the files that a scan finds is what is found in each by itself. -/
theorem Grounded.mem_sortAll_iff (hp : p.Grounded) (h : t.WellFormed) (hclean : p.Clean t)
    {α : Type} [Named α] {extract : Program → Path → SourceModule → List α × List Skipped}
    (hextract : ∀ {S : Path → Prop} {P Q : Program} {f : Path}, Program.AgreeOn S P Q → S f →
      ∀ m, extract P f m = extract Q f m)
    (hs : p.scannerFor? root = some s) {paths : List Path} (hscan : s.scan t = .ok paths)
    {r : Record α} :
    r ∈ Record.sortAll (extractFiles (program t paths) (extract (program t paths)) paths).records ↔
      ∃ f, p.Scanned t root f ∧
        ∃ s ∈ (extractFiles (program t [f]) (extract (program t [f])) [f]).records,
          s.sortEntries = r := by
  have hfull : ∀ f ∈ paths, f.Full := fun f hf =>
    (hclean.rooted hp h ((scanned_iff_mem hs hscan).2 hf)).full
  have hparses : ∀ q, (∃ f ∈ paths, (Disk.ofTree t).Reaches f q) →
      ((Disk.ofTree t).read q).isSome = true := fun q ⟨f, hf, hreach⟩ =>
    hclean.parses root f ((scanned_iff_mem hs hscan).2 hf) q hreach
  have hone : ∀ f ∈ paths, ∀ r : Record α,
      (∃ m, (program t paths).module? f = some m ∧
        r = ⟨f, (extract (program t paths) f m).1⟩) ↔
          r ∈ (extractFiles (program t [f]) (extract (program t [f])) [f]).records :=
    fun f hf r => by
      have hagree := Disk.agreeOn_of_roots h.lawful hfull hparses hf
      simp only [mem_extractFiles, List.mem_singleton, exists_eq_left]
      refine exists_congr fun m => ?_
      rw [program_eq_load, program_eq_load, hagree.module?_eq .refl, hextract hagree .refl m]
  simp only [Record.mem_sortAll, scanned_iff_mem hs hscan]
  constructor
  · rintro ⟨s, hin, rfl⟩
    obtain ⟨f, hf, hm⟩ := mem_extractFiles.1 hin
    exact ⟨f, hf, s, (hone f hf s).1 hm, rfl⟩
  · rintro ⟨f, hf, s, hin, rfl⟩
    exact ⟨s, mem_extractFiles.2 ⟨f, hf, (hone f hf s).2 hin⟩, rfl⟩

/-- Events are planned just if a directory is configured for them, where it is there. -/
theorem Planned.isSome_events? (hp : p.Grounded) (h : t.WellFormed) (hready : p.Ready t)
    {paths : List Path} {set : WorkingSet} (hset : p.Planned t paths set) :
    set.events?.isSome = p.eventDir?.isSome := by
  have hscanner : p.eventScanner?.isSome = p.eventDir?.isSome := Option.isSome_map
  rw [hset.events?, Option.isSome_map, ← hscanner]
  cases hs : p.eventScanner? with
  | none =>
    rw [allEvents?, hs]
    rfl
  | some s =>
    have hevents : p.scannerFor? .events = some s := hs
    obtain ⟨found, hscan⟩ :=
      Scanner.exists_scan h (hp.rooted_scanner hevents) (hready .events s hevents)
    rw [(allEvents?_eq_some hp.toValid h).2 ⟨s, found, hs, hscan, rfl⟩]
    rfl

/-- What is planned is what is found in each file by itself. -/
theorem Planned.fresh (hp : p.Grounded) (h : t.WellFormed) (hclean : p.Clean t) (hready : p.Ready t)
    {paths : List Path} (hscan : p.apiScanner.scan t = .ok paths) {set : WorkingSet}
    (hset : p.Planned t paths set) : p.Fresh t set := by
  have hsome := hset.isSome_events? hp h hready
  refine ⟨hset.isSorted hp.toValid h hscan, fun r => ?_, fun r => ?_, hsome⟩
  · have hapi : p.scannerFor? .api = some p.apiScanner := rfl
    rw [hset.api]
    exact hp.mem_sortAll_iff h hclean (fun hagree hf m => hagree.apiFunctions hf p.rules m) hapi
      hscan
  · rw [WorkingSet.events]
    rcases hset.events?_eq hp.toValid h with hnone | ⟨s, found, hs, hscan, hfound⟩
    · -- then no directory is configured, and so no file is found
      rw [hnone] at hsome ⊢
      constructor
      · intro hin
        cases hin
      · rintro ⟨f, ⟨s, _, hs, _⟩, _⟩
        obtain ⟨dir, hdir, -⟩ := Option.map_eq_some_iff.1 hs
        rw [hdir] at hsome
        cases hsome
    · have hevents : p.scannerFor? .events = some s := hs
      rw [hfound, Option.getD_some]
      exact hp.mem_sortAll_iff h hclean (fun hagree hf m => hagree.apiEvents hf m) hevents hscan

/-! ## Written artifacts -/

section WrittenAt

variable (hp : p.Grounded) (ht : t.WellFormed) (h : FileTree.WrittenAt p.artifactPlaces t u)

include h

/-- Writing does away with no ignore file. -/
theorem hasIgnoreFiles_of_writtenAt (ht : t.WellFormed) (hnone : u.hasIgnoreFiles = false) :
    t.hasIgnoreFiles = false := by
  rw [FileTree.hasIgnoreFiles, List.any_eq_false] at hnone ⊢
  rintro ⟨place, content⟩ hin
  have hsome : (t.contentAt? place).isSome = true := by
    rw [ht.mem_files_iff.1 hin]
    rfl
  obtain ⟨content', hc⟩ := Option.isSome_iff_exists.1 (h.files place hsome)
  exact hnone (place, content') (h.wellFormed.mem_files_iff.2 hc)

/-- Watched directories stay. -/
theorem Ready.of_writtenAt (hready : p.Ready t) : p.Ready u := fun root s hs =>
  h.directories _ (hready root s hs)

include hp ht

/-- Writing artifacts makes no difference to what a scan finds. -/
theorem Grounded.scanned_of_writtenAt (hready : p.Ready t) (hnone : u.hasIgnoreFiles = false) :
    p.Scanned u root f ↔ p.Scanned t root f := by
  rw [hp.scanned_iff h.wellFormed hnone (hready.of_writtenAt h),
    hp.scanned_iff ht (hasIgnoreFiles_of_writtenAt h ht hnone) hready]
  refine and_congr_right fun hf => and_congr_left fun ⟨s, hs, haccepts⟩ => ?_
  rw [h.contentAt?_eq (hp.place_not_mem_of_accepts hf hs haccepts)]

/-- A file that a scan finds reaches the same with the artifacts and without them. -/
theorem Clean.reaches_iff (hready : p.Ready t) (hu : p.Clean u) (hf : p.Scanned t root f) :
    (Disk.ofTree t).Reaches f q ↔ (Disk.ofTree u).Reaches f q := by
  have hf' := (hp.scanned_of_writtenAt ht h hready hu.noIgnore).2 hf
  exact (h.agreeBut ht).reaches_iff h.wellFormed.lawful (hu.rooted hp h.wellFormed hf').full
    (hu.apart root f hf')

/-- A tree is clean if it is so with the artifacts. -/
theorem Clean.of_writtenAt (hready : p.Ready t) (hu : p.Clean u) : p.Clean t where
  noIgnore := hasIgnoreFiles_of_writtenAt h ht hu.noIgnore
  parses root f hf q hreach := by
    have hf' := (hp.scanned_of_writtenAt ht h hready hu.noIgnore).2 hf
    have hreach' := (hu.reaches_iff hp ht h hready hf).1 hreach
    have hfull := h.wellFormed.lawful.full_of_reaches hreach' (hu.rooted hp h.wellFormed hf').full
    rw [(h.agreeBut ht).read_eq hfull (hu.apart root f hf' q hreach')]
    exact hu.parses root f hf' q hreach'
  apart root f hf q hreach :=
    hu.apart root f ((hp.scanned_of_writtenAt ht h hready hu.noIgnore).2 hf) q
      ((hu.reaches_iff hp ht h hready hf).1 hreach)

/-- A fresh working set is so with the artifacts. -/
theorem Fresh.of_writtenAt (hready : p.Ready t) (hu : p.Clean u) {set : WorkingSet}
    (hset : p.Fresh t set) : p.Fresh u set := by
  have hscanned : ∀ root f, p.Scanned u root f ↔ p.Scanned t root f := fun root f =>
    hp.scanned_of_writtenAt ht h hready hu.noIgnore
  have hfound : ∀ root f, p.Scanned t root f →
      p.foundApi t f = p.foundApi u f ∧ foundEvents t f = foundEvents u f := fun root f hf => by
    have hf' := (hscanned root f).2 hf
    exact found_of_agreeBut ht h.wellFormed (h.agreeBut ht) (hu.rooted hp h.wellFormed hf').full
      (hu.apart root f hf')
  refine ⟨hset.sorted, fun r => (hset.api r).trans ?_, fun r => (hset.events r).trans ?_,
    hset.isSome⟩
  · refine exists_congr fun f => ?_
    rw [hscanned]
    exact and_congr_right fun hf => by rw [(hfound _ f hf).1]
  · refine exists_congr fun f => ?_
    rw [hscanned]
    exact and_congr_right fun hf => by rw [(hfound _ f hf).2]

end WrittenAt

end IpcWiring.Project
