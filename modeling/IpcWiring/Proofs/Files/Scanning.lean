import IpcWiring.Files.Scanner
import IpcWiring.Proofs.Files.Following
import IpcWiring.Proofs.Path.Order

/-!
# What a scan finds

A scan of a well-formed tree finds just the files below the scanner's root that the scanner accepts
and that no ignore file hides (`Scanner.mem_scan_iff`), each one once (`Scanner.pairwise_of_scan`).
Where there are no ignore files nothing is hidden, and whether a file is found can be told by its
path (`Scanner.mem_scan_iff_accepts`). Two trees that have the same ignore files and the same files
to be found come to the same scan (`Scanner.scan_congr`).
-/

namespace IpcWiring

/-! ## Files below a directory -/

namespace Path

/-- Going down from a resolved directory by names. -/
theorem Resolved.foldl_join {dir : Path} (h : dir.Resolved) : ∀ {names : List String},
    (∀ s ∈ names, IsEntryName s) →
      names.foldl (fun p s => p.join ⟨s⟩) dir =
        ofComponents (dir.components ++ names.map .name)
  | [], _ => by rw [List.map_nil, List.append_nil, h.written]; rfl
  | s :: names, hnames => by
    have hs := hnames s List.mem_cons_self
    rw [List.foldl_cons, (h.join hs).foldl_join fun r hr => hnames r (List.mem_cons_of_mem _ hr),
      h.components_join hs, List.append_assoc, List.map_cons, List.singleton_append]

/-- Resolved components with names behind them are resolved. -/
theorem resolved_append_names {cs : List Component} (h : Component.Resolved cs) :
    ∀ {names : List String}, (∀ s ∈ names, IsEntryName s) →
      Component.Resolved (cs ++ names.map .name)
  | [], _ => by simpa using h
  | s :: names, hnames => by
    have hrest := resolved_append_names (h.snoc (hnames s List.mem_cons_self))
      fun r hr => hnames r (List.mem_cons_of_mem _ hr)
    simpa using hrest

end Path

/-! ## Ignore files -/

namespace FileTree

variable {t u : FileTree}

/-- Where ignore files stand in the directories that they are about. -/
def ignoreFiles : List Place := [[".ignore"], [".gitignore"], [".git", "info", "exclude"]]

/-- The tree has an ignore file. -/
def hasIgnoreFiles (t : FileTree) : Bool :=
  t.files.any fun (place, _) => ignoreFiles.any (·.isSuffixOf place)

/-- Where there are no ignore files there are no rules. -/
theorem WellFormed.rulesAt_eq_nil (h : t.WellFormed) (hnone : t.hasIgnoreFiles = false)
    {file : Place} (hfile : file ∈ ignoreFiles) (dir : Place) : t.rulesAt (dir ++ file) = [] := by
  rw [rulesAt]
  cases hc : t.contentAt? (dir ++ file) with
  | none => rfl
  | some content =>
    simp only [hasIgnoreFiles, List.any_eq_false, List.any_eq_true, not_exists, not_and] at hnone
    exact absurd (List.isSuffixOf_iff_suffix.2 (List.suffix_append dir file))
      (hnone _ (h.mem_files_iff.2 hc) file hfile)

/-- Where there are no ignore files no file is hidden. -/
theorem WellFormed.isReached_eq_true (h : t.WellFormed) (hnone : t.hasIgnoreFiles = false)
    (respectsGit : Bool) (root place : Place) : t.isReached respectsGit root place = true := by
  have hverdict : ∀ file ∈ ignoreFiles, ∀ dirs place isDirectory,
      t.verdictOf? file dirs place isDirectory = none := fun file hfile dirs place isDirectory => by
    rw [verdictOf?, List.findSome?_eq_none_iff]
    intro dir _
    rw [h.rulesAt_eq_nil hnone hfile dir]
    rfl
  have hkept : ∀ place isDirectory, t.isIgnored respectsGit place isDirectory = false :=
    fun place isDirectory => by
      simp only [isIgnored, hverdict [".ignore"] (by simp [ignoreFiles]),
        hverdict [".gitignore"] (by simp [ignoreFiles]),
        hverdict [".git", "info", "exclude"] (by simp [ignoreFiles])]
      rfl
  simp [isReached, hkept]

/-- The ignore files of two trees have the same rules, and count in the same repositories. -/
structure SameRules (t u : FileTree) : Prop where
  rulesAt : ∀ dir, ∀ file ∈ ignoreFiles, t.rulesAt (dir ++ file) = u.rulesAt (dir ++ file)
  isRepository : ∀ dir, t.isRepository dir = u.isRepository dir

/-- The same directories lead up to the top of a repository. -/
theorem SameRules.withinRepository_eq (h : SameRules t u) :
    ∀ dirs, t.withinRepository dirs = u.withinRepository dirs
  | [] => rfl
  | dir :: outer => by
    rw [withinRepository, withinRepository, h.isRepository, h.withinRepository_eq outer]

/-- The same rules hide the same files. -/
theorem SameRules.isReached_eq (h : SameRules t u) (respectsGit : Bool) (root place : Place) :
    t.isReached respectsGit root place = u.isReached respectsGit root place := by
  have hverdict : ∀ file ∈ ignoreFiles, ∀ dirs place isDirectory,
      t.verdictOf? file dirs place isDirectory = u.verdictOf? file dirs place isDirectory :=
    fun file hfile dirs place isDirectory => by simp only [verdictOf?, h.rulesAt _ file hfile]
  have hignored : ∀ place isDirectory,
      t.isIgnored respectsGit place isDirectory = u.isIgnored respectsGit place isDirectory :=
    fun place isDirectory => by
      simp only [isIgnored, h.withinRepository_eq, hverdict [".ignore"] (by simp [ignoreFiles]),
        hverdict [".gitignore"] (by simp [ignoreFiles]),
        hverdict [".git", "info", "exclude"] (by simp [ignoreFiles])]
  simp only [isReached, hignored]

end FileTree

namespace Scanner

open FileTree

variable {s : Scanner} {t u : FileTree}

/-! ## Scanning -/

/-- An accepted path is below the root and in no excluded directory. -/
theorem accepts_imp {p : Path} (h : s.accepts p = true) :
    s.root.isWithin p = true ∧ s.isExcluded p = false := by
  simp only [accepts, Bool.and_eq_true, Bool.not_eq_true'] at h
  exact ⟨h.1.1.1, h.1.2⟩

/-- A file is reached from a directory by the names that follow. -/
theorem reached_eq_some (h : t.WellFormed) (hroot : s.root.Resolved) {place file : Place}
    {content : ByteArray} (hfile : (file, content) ∈ t.files) {p : Path} :
    (if place.isPrefixOf file && t.isReached s.respectsGit place file then
        some ((file.drop place.length).foldl (fun p name => p.join ⟨name⟩) s.root)
      else none) = some p ↔
      ∃ names, file = place ++ names ∧ t.isReached s.respectsGit place file = true ∧
        p = Path.ofComponents (s.root.components ++ names.map .name) := by
  have hc := h.mem_files_iff.1 hfile
  have hentry : ∀ names, file = place ++ names → ∀ r ∈ names, IsEntryName r := fun names he r hr =>
    h.isEntryName file (by rw [contentAt?_eq_some.1 hc]; rfl)
      (he ▸ List.mem_append_right _ hr)
  rw [Option.ite_none_right_eq_some, Bool.and_eq_true, List.isPrefixOf_iff_prefix,
    Option.some.injEq]
  constructor
  · rintro ⟨⟨⟨names, rfl⟩, hreached⟩, rfl⟩
    refine ⟨names, rfl, hreached, ?_⟩
    rw [List.drop_left]
    exact hroot.foldl_join (hentry names rfl)
  · rintro ⟨names, rfl, hreached, rfl⟩
    refine ⟨⟨List.prefix_append _ _, hreached⟩, ?_⟩
    rw [List.drop_left]
    exact hroot.foldl_join (hentry names rfl)

/-- The files below the root that are not hidden. -/
theorem mem_reachedFiles (h : t.WellFormed) (hroot : s.root.Resolved) {place : Place} {p : Path} :
    p ∈ s.reachedFiles t place ↔ ∃ names, (t.contentAt? (place ++ names)).isSome = true ∧
      t.isReached s.respectsGit place (place ++ names) = true ∧
        p = Path.ofComponents (s.root.components ++ names.map .name) := by
  rw [reachedFiles, List.mem_filterMap]
  constructor
  · rintro ⟨⟨file, content⟩, hfile, hsome⟩
    obtain ⟨names, rfl, hreached, rfl⟩ := (reached_eq_some h hroot hfile).1 hsome
    exact ⟨names, by rw [h.mem_files_iff.1 hfile]; rfl, hreached, rfl⟩
  · rintro ⟨names, hsome, hreached, rfl⟩
    obtain ⟨content, hc⟩ := Option.isSome_iff_exists.1 hsome
    have hfile := h.mem_files_iff.2 hc
    exact ⟨_, hfile, (reached_eq_some h hroot hfile).2 ⟨names, rfl, hreached, rfl⟩⟩

/-- No two files of a tree stand at one place. -/
theorem pairwise_files (h : t.WellFormed) : t.files.Pairwise fun x y => x.1 ≠ y.1 := by
  rw [files, List.pairwise_filterMap]
  refine (List.pairwise_map.1 h.nodup).imp fun {x y} hxy a ha b hb => ?_
  obtain ⟨q, _ | c⟩ := x <;> obtain ⟨r, _ | d⟩ := y <;> cases ha <;> cases hb
  exact hxy

/-- No file below the root is listed twice. -/
theorem pairwise_reachedFiles (h : t.WellFormed) (hroot : s.root.Resolved) (place : Place) :
    (s.reachedFiles t place).Pairwise fun p q => p.components ≠ q.components := by
  rw [reachedFiles, List.pairwise_filterMap]
  refine (pairwise_files h).imp_of_mem fun {x y} hx hy hxy p hp q hq => ?_
  obtain ⟨names, hfile, -, rfl⟩ := (reached_eq_some h hroot hx).1 hp
  obtain ⟨names', hfile', -, rfl⟩ := (reached_eq_some h hroot hy).1 hq
  have hres : ∀ {file content names}, (file, content) ∈ t.files → file = place ++ names →
      Component.Resolved (s.root.components ++ names.map .name) := fun {file} _ {names} hin he =>
    Path.resolved_append_names hroot.components fun r hr =>
      h.isEntryName file (by rw [contentAt?_eq_some.1 (h.mem_files_iff.1 hin)]; rfl)
        (he ▸ List.mem_append_right _ hr)
  rw [Path.components_ofComponents_of_resolved (hres hx hfile),
    Path.components_ofComponents_of_resolved (hres hy hfile')]
  intro he
  have hnames : names = names' :=
    List.map_injective_iff.2 (fun _ _ h => Component.name.inj h) (List.append_cancel_left he)
  exact hxy (by rw [hfile, hfile', hnames])

/-- A scan lists what it finds below the root, which is a directory. -/
theorem scan_eq_ok_iff (h : t.WellFormed) (hroot : s.root.Resolved) {paths : List Path} :
    s.scan t = .ok paths ↔ s.root.components ≠ [] ∧ t.isDirectoryAt s.root.place = true ∧
      paths = ((s.reachedFiles t s.root.place).filter s.accepts).mergeSort Path.le := by
  rw [scan]
  cases hl : t.locate s.root with
  | error e =>
    refine ⟨nofun, fun ⟨hne, hdir, _⟩ => ?_⟩
    rw [(h.locate_eq_ok_iff hroot.components).2
      ⟨hne, rfl, isSome_entryAt?_iff.2 (.inl hdir), fun _ => hdir⟩] at hl
    cases hl
  | ok place =>
    obtain ⟨hne, rfl, -⟩ := (h.locate_eq_ok_iff hroot.components).1 hl
    cases hdir : t.isDirectoryAt s.root.place <;> simp [hdir, hne, eq_comm]

/-- A directory that a path from the root leads to can be scanned. -/
theorem exists_scan (h : t.WellFormed) (hroot : s.root.Rooted)
    (hdir : t.isDirectoryAt s.root.place = true) : ∃ paths, s.scan t = .ok paths := by
  refine ⟨_, (scan_eq_ok_iff h hroot.resolved).2 ⟨fun hnil => ?_, hdir, rfl⟩⟩
  rw [hroot.components_eq] at hnil
  cases hnil

/-- A scan finds every file once. -/
theorem pairwise_of_scan (h : t.WellFormed) (hroot : s.root.Resolved) {paths : List Path}
    (hs : s.scan t = .ok paths) : paths.Pairwise fun p q => p.components ≠ q.components := by
  obtain ⟨-, -, rfl⟩ := (scan_eq_ok_iff h hroot).1 hs
  refine (List.mergeSort_perm _ _).symm.pairwise ?_ fun h => h.symm
  exact (pairwise_reachedFiles h hroot _).sublist List.filter_sublist

/-- The files that a scan finds. -/
theorem mem_scan_iff (h : t.WellFormed) (hroot : s.root.Resolved) {paths : List Path}
    (hs : s.scan t = .ok paths) {p : Path} : p ∈ paths ↔ s.accepts p = true ∧
      ∃ names, (t.contentAt? (s.root.place ++ names)).isSome = true ∧
        t.isReached s.respectsGit s.root.place (s.root.place ++ names) = true ∧
          p = Path.ofComponents (s.root.components ++ names.map .name) := by
  obtain ⟨-, -, rfl⟩ := (scan_eq_ok_iff h hroot).1 hs
  rw [List.mem_mergeSort, List.mem_filter, mem_reachedFiles h hroot, and_comm]

/-- What a scan finds is resolved. -/
theorem resolved_of_mem_scan (h : t.WellFormed) (hroot : s.root.Resolved) {paths : List Path}
    (hs : s.scan t = .ok paths) {p : Path} (hp : p ∈ paths) : p.Resolved := by
  obtain ⟨-, names, hsome, -, rfl⟩ := (mem_scan_iff h hroot hs).1 hp
  refine Path.resolved_ofComponents (Path.resolved_append_names hroot.components fun r hr => ?_)
  exact h.isEntryName _ (isSome_entryAt?_iff.2 (.inr hsome)) (List.mem_append_right _ hr)

/-- A scan below the root finds the files that are accepted by their paths and not hidden. -/
theorem mem_scan_iff_reached (h : t.WellFormed) (hroot : s.root.Rooted) {paths : List Path}
    (hs : s.scan t = .ok paths) {p : Path} :
    p ∈ paths ↔ s.accepts p = true ∧ p.Rooted ∧ (t.contentAt? p.place).isSome = true ∧
      t.isReached s.respectsGit s.root.place p.place = true := by
  rw [mem_scan_iff h hroot.resolved hs]
  refine and_congr_right fun haccepts => ?_
  have hcomponents : ∀ names : List String, s.root.components ++ names.map .name =
      .root :: (s.root.place ++ names).map .name := fun names => by
    rw [hroot.components_eq, List.map_append, List.cons_append]
  constructor
  · rintro ⟨names, hsome, hreached, rfl⟩
    have hnames : ∀ r ∈ s.root.place ++ names, IsEntryName r := fun r hr =>
      h.isEntryName _ (isSome_entryAt?_iff.2 (.inr hsome)) hr
    rw [hcomponents]
    obtain ⟨hrooted, hplace⟩ := Path.rooted_ofComponents hnames
    rw [hplace]
    exact ⟨hrooted, hsome, hreached⟩
  · rintro ⟨hp, hsome, hreached⟩
    obtain ⟨names, hnames⟩ := (hroot.isWithin_iff hp).1 (accepts_imp haccepts).1
    rw [← hnames] at hsome hreached
    refine ⟨names, hsome, hreached, ?_⟩
    rw [hcomponents, hnames]
    exact hp.eq_ofComponents

/-- Without ignore files a scan finds the files that are accepted by their paths. -/
theorem mem_scan_iff_accepts (h : t.WellFormed) (hnone : t.hasIgnoreFiles = false)
    (hroot : s.root.Rooted) {paths : List Path} (hs : s.scan t = .ok paths) {p : Path} :
    p ∈ paths ↔ s.accepts p = true ∧ p.Rooted ∧ (t.contentAt? p.place).isSome = true := by
  rw [mem_scan_iff_reached h hroot hs, h.isReached_eq_true hnone, and_iff_left rfl]

/-! ## Scanning again -/

/-- What a scan finds is in strict order. -/
theorem sorted_of_scan (h : t.WellFormed) (hroot : s.root.Resolved) {paths : List Path}
    (hs : s.scan t = .ok paths) : paths.Pairwise fun p q => p.cmp q = .lt := by
  have hne := pairwise_of_scan h hroot hs
  obtain ⟨-, -, rfl⟩ := (scan_eq_ok_iff h hroot).1 hs
  exact ((List.pairwise_mergeSort Path.le_trans Path.le_total _).and hne).imp fun h =>
    Path.cmp_eq_lt h.1 h.2

/-- A scan only fails where there is no directory to scan. -/
theorem eq_of_scan_error {e : ScanError} (h : s.scan t = .error e) :
    e = .directoryNotFound s.root := by
  rw [scan] at h
  split at h
  · split at h
    · cases h
    · exact (Except.error.inj h).symm
  · exact (Except.error.inj h).symm

/-- A scan comes to the same on two trees with the same ignore files if the directory is there in
both or in neither, and they have the same files among those that are accepted. -/
theorem scan_congr (ht : t.WellFormed) (hu : u.WellFormed) (hroot : s.root.Rooted)
    (hrules : SameRules t u) (hdir : t.isDirectoryAt s.root.place = u.isDirectoryAt s.root.place)
    (hthere : ∀ p : Path, p.Rooted → s.accepts p = true →
      (t.contentAt? p.place).isSome = (u.contentAt? p.place).isSome) : s.scan t = s.scan u := by
  cases hscan : s.scan t with
  | ok paths =>
    obtain ⟨hne, hin, -⟩ := (scan_eq_ok_iff ht hroot.resolved).1 hscan
    obtain ⟨others, hscan'⟩ := exists_scan hu hroot (hdir ▸ hin)
    refine hscan'.symm ▸ congrArg _ (Path.eq_of_pairwise_lt (sorted_of_scan ht hroot.resolved hscan)
      (sorted_of_scan hu hroot.resolved hscan') fun p => ?_)
    rw [mem_scan_iff_reached ht hroot hscan, mem_scan_iff_reached hu hroot hscan']
    refine and_congr_right fun haccepts => and_congr_right fun hp => ?_
    rw [hthere p hp haccepts, hrules.isReached_eq]
  | error e =>
    cases hscan' : s.scan u with
    | ok others =>
      obtain ⟨-, hin, -⟩ := (scan_eq_ok_iff hu hroot.resolved).1 hscan'
      obtain ⟨paths, hfound⟩ := exists_scan ht hroot (hdir ▸ hin)
      rw [hscan] at hfound
      cases hfound
    | error e' => rw [eq_of_scan_error hscan, eq_of_scan_error hscan']

end Scanner

end IpcWiring
