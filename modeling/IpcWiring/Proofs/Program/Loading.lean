import Mathlib.Data.List.Perm.Subperm
import Mathlib.Logic.Function.Iterate
import IpcWiring.Proofs.Extract.Names
import IpcWiring.Proofs.Path.Order
import IpcWiring.Proofs.Program.Agreement
import IpcWiring.Proofs.Program.Closure

/-!
# Loading computes the import closure

A file map (`FileMap`) is a disk on which only files have modules, each under the path of its file;
any of its files may be unreadable. The closure of some roots (`Disk.Closure`) is the least set that
has the normalized roots and, with each file that can be read, every file that an import or
re-export of its module resolves to. A program is loaded by rounds over a work list
(`Disk.round`), which end whatever cycles the imports form; they read each file of the closure once
and no other, so the program has the modules of the closure, and its order does not depend on the
order, spelling or repetition of the roots (`FileMap.load_closure`).
-/

namespace IpcWiring

/-! ## Closures -/

namespace SourceModule

/-- The module imports or exports from the specifier. -/
def RefersTo (m : SourceModule) (specifier : String) : Prop :=
  (∃ b ∈ m.imports.values, b.specifier = specifier) ∨ ∃ r ∈ m.reexports, r.specifier = specifier

/-- The dependencies are the specifiers that the module refers to. -/
theorem mem_dependencies_iff {m : SourceModule} {specifier : String} :
    specifier ∈ m.dependencies ↔ m.RefersTo specifier := by
  rw [dependencies, Text.mem_sortDistinct, List.mem_append, List.mem_map, List.mem_map, RefersTo]

end SourceModule

namespace Disk

variable {d : Disk} {roots pending : List Path} {visits : List Program.Visit} {p q : Path}

/-- The least set that has the normalized roots and, with each file that can be read, every file
that its module's imports and re-exports resolve to. -/
inductive Closure (d : Disk) (roots : List Path) : Path → Prop where
  | root {r : Path} (h : r ∈ roots) : Closure d roots r.normalize
  | follow {p q : Path} {m : SourceModule} {specifier : String} (hp : Closure d roots p)
      (hm : d.read p = some m) (hs : m.RefersTo specifier)
      (hq : Specifier.resolve d.isFile p specifier = some q) : Closure d roots q

/-- The closure is what the normalized roots reach. -/
theorem closure_iff (hpath : ∀ {p m}, d.read p = some m → m.path = p) :
    d.Closure roots p ↔ ∃ r ∈ roots.map Path.normalize, d.Reaches r p := by
  constructor
  · intro h
    induction h with
    | root h => exact ⟨_, List.mem_map_of_mem h, .refl⟩
    | @follow p q m specifier _ hm hs hq ih =>
      obtain ⟨r, hr, hreach⟩ := ih
      have hdep := SourceModule.mem_dependencies_iff.2 hs
      refine ⟨r, hr, hreach.tail ⟨m, hm, List.mem_filterMap.2 ⟨specifier, hdep, ?_⟩⟩⟩
      rw [hpath hm]
      exact hq
  · rintro ⟨r, hr, hreach⟩
    obtain ⟨root, hroot, rfl⟩ := List.mem_map.1 hr
    induction hreach with
    | refl => exact .root hroot
    | @tail p q _ himp ih =>
      obtain ⟨m, hm, hq⟩ := himp
      obtain ⟨specifier, hdep, hs⟩ := List.mem_filterMap.1 hq
      rw [hpath hm] at hs
      exact .follow ih hm (SourceModule.mem_dependencies_iff.1 hdep) hs

/-- The closure has resolved paths. -/
theorem Closure.resolved (h : d.Closure roots p) : p.Resolved := by
  cases h with
  | root => exact Path.resolved_normalize _
  | follow _ _ _ hq => exact (Specifier.resolve_eq_some hq).2

/-- A file of the closure is there, or it is a root. -/
theorem Closure.isFile_or_mem (h : d.Closure roots p) :
    d.isFile p = true ∨ p ∈ roots.map Path.normalize := by
  cases h with
  | root h => exact .inr (List.mem_map_of_mem h)
  | follow _ _ _ hq => exact .inl (Specifier.resolve_eq_some hq).1

/-- Roots that are the same when normalized have the same closure. -/
theorem Closure.mono {others : List Path}
    (hroots : ∀ r ∈ roots.map Path.normalize, r ∈ others.map Path.normalize)
    (h : d.Closure roots p) : d.Closure others p := by
  induction h with
  | root h =>
    obtain ⟨other, hother, heq⟩ := List.mem_map.1 (hroots _ (List.mem_map_of_mem h))
    exact heq ▸ .root hother
  | follow _ hm hs hq ih => exact .follow ih hm hs hq

/-! ## Rounds -/

/-- One round over the files that wait and the visits so far: the first file is dropped if it was
visited, and else it is read, and what it imports waits behind the others. -/
def round (d : Disk) : List Path × List Program.Visit → List Path × List Program.Visit
  | ([], visits) => ([], visits)
  | (p :: rest, visits) =>
    if Program.isVisited visits p then (rest, visits)
    else (rest ++ ((d.read p).map (Program.importedFiles d.isFile)).getD [],
      visits ++ [⟨p, d.read p⟩])

/-- The rounds end with all that is visited, if imports can be followed from the roots. -/
theorem Follows.exists_iterate_round (hd : d.Follows roots) (h : d.Invariant roots pending visits) :
    ∃ n, d.round^[n] (pending, visits) = ([], Program.visit d.files d.read
      (Program.importedFiles d.isFile) pending visits) := by
  have hnext : ∀ {state result}, (∃ n, d.round^[n] (d.round state) = result) →
      ∃ n, d.round^[n] state = result := fun ⟨n, hn⟩ =>
    ⟨n + 1, (Function.iterate_succ_apply ..).trans hn⟩
  induction pending, visits using Program.visit.induct d.files d.read
    (Program.importedFiles d.isFile) with
  | case1 visits => exact ⟨0, by simp [Program.visit]⟩
  | case2 visits p rest hold ih =>
    rw [Program.visit, dif_pos hold]
    refine hnext ?_
    rw [round, if_pos hold]
    exact ih (h.drop ((h.isVisited_iff (h.waiting p List.mem_cons_self).1).1 hold))
  | case3 visits p rest hnew v hfile ih =>
    rw [Program.visit, dif_neg hnew, dif_pos hfile]
    refine hnext ?_
    rw [round, if_neg hnew]
    refine ih (h.visit fun q => ?_)
    cases hread : d.read p <;> simp [v, hread, Imports]
  | case4 visits p rest hnew v hfile ih =>
    -- A file that is not there has no module, so that nothing more waits.
    have hnone : d.read p = none := by
      cases hread : d.read p with
      | none => rfl
      | some m => exact absurd (hd.isFile (h.waiting p List.mem_cons_self).2 hread) hfile
    have hvisit : d.Invariant roots (rest ++ []) (visits ++ [⟨p, d.read p⟩]) :=
      h.visit fun q => by simp [Imports, hnone]
    rw [Program.visit, dif_neg hnew, dif_neg hfile]
    refine hnext ?_
    rw [round, if_neg hnew, hnone, Option.map_none, Option.getD_none, List.append_nil]
    simpa [v, hnone] using ih (by simpa using hvisit)

/-- No path is visited twice. -/
theorem nodup_visit {files : List Path} {imported : SourceModule → List Path}
    (h : (visits.map (·.path)).Nodup) :
    ((Program.visit files d.read imported pending visits).map (·.path)).Nodup := by
  have hsnoc : ∀ {visits : List Program.Visit} {v : Program.Visit},
      (visits.map (·.path)).Nodup → ¬ Program.isVisited visits v.path = true →
        ((visits ++ [v]).map (·.path)).Nodup := fun {visits v} h hnew => by
    rw [List.map_append, List.map_singleton]
    refine List.Nodup.append h (List.nodup_singleton _) (List.disjoint_singleton.2 fun hmem => ?_)
    obtain ⟨w, hw, heq⟩ := List.mem_map.1 hmem
    exact hnew (List.any_eq_true.2 ⟨w, hw, Path.beq_iff.2 (congrArg Path.components heq)⟩)
  induction pending, visits using Program.visit.induct files d.read imported with
  | case1 visits => simpa [Program.visit] using h
  | case2 visits p rest hold ih =>
    rw [Program.visit, dif_pos hold]
    exact ih h
  | case3 visits p rest hnew v hfile ih =>
    rw [Program.visit, dif_neg hnew, dif_pos hfile]
    exact ih (hsnoc h hnew)
  | case4 visits p rest hnew v hfile ih =>
    rw [Program.visit, dif_neg hnew, dif_neg hfile]
    exact ih (hsnoc h hnew)

end Disk

/-! ## File maps -/

/-- A finite map of files: only its files have modules, and a module has the path of its file. Any
of the files may be unreadable. -/
structure FileMap extends Disk where
  path_of_read : ∀ {p m}, read p = some m → m.path = p
  isFile_of_read : ∀ {p m}, read p = some m → files.any (· == p) = true

namespace FileMap

/-- The file map of source texts that are given along with their paths; of two texts for one file
the later one counts. -/
def ofSources (sources : List (Path × String)) : FileMap where
  files := sources.map (·.1.normalize)
  read path :=
    ((sources.map fun (path, text) => (path.normalize, text)).reverse.find? (·.1 == path)).bind
      fun (_, text) => SourceModule.parse? path text
  path_of_read hm := by
    obtain ⟨source, -, hparse⟩ := Option.bind_eq_some_iff.1 hm
    exact (SourceModule.parse?_eq_some hparse).1
  isFile_of_read hm := by
    obtain ⟨source, hsource, -⟩ := Option.bind_eq_some_iff.1 hm
    have hfound := List.find?_some (p := fun s : Path × String => s.1 == _) hsource
    have hmem := List.mem_reverse.1 (List.mem_of_find?_eq_some hsource)
    obtain ⟨⟨path, text⟩, hpath, rfl⟩ := List.mem_map.1 hmem
    exact List.any_eq_true.2 ⟨_, List.mem_map_of_mem hpath, hfound⟩

/-- The program of source texts is loaded from their file map, with every file as a root. -/
theorem program_ofSources (sources : List (Path × String)) : Program.ofSources sources =
    (ofSources sources).load (sources.map (·.1.normalize)) := by
  rw [Program.ofSources, List.map_map]
  rfl

variable (d : FileMap) {roots others : List Path} {p : Path}

/-- Imports can be followed in a file map. -/
theorem follows (roots : List Path) : d.Follows roots where
  path_eq := d.path_of_read
  isFile _ hm := d.isFile_of_read hm

/-- The closure of the roots is what they reach. -/
theorem closure_iff : d.Closure roots p ↔ ∃ r ∈ roots.map Path.normalize, d.Reaches r p :=
  Disk.closure_iff d.path_of_read

/-- The files that are visited are those of the closure. -/
theorem mem_visited_iff : p ∈ (d.visited roots).map (·.path) ↔ d.Closure roots p := by
  rw [d.closure_iff, ← (d.follows _).visited_iff, List.mem_map]

/-- Every visit has what was read of its file. -/
theorem module?_of_mem_visited {v : Program.Visit} (h : v ∈ d.visited roots) :
    v.module? = d.read v.path :=
  ((d.follows _).invariant_visited.visited v h).2.1

/-- No file is visited twice. -/
theorem nodup_visited : ((d.visited roots).map (·.path)).Nodup := Disk.nodup_visit List.nodup_nil

/-- There are no more visits than files and roots. -/
theorem length_visited_le : (d.visited roots).length ≤ d.files.length + roots.length := by
  have hinj : ∀ p ∈ (d.visited roots).map (·.path), ∀ q ∈ (d.visited roots).map (·.path),
      p.components = q.components → p = q := fun p hp q hq =>
    ((d.mem_visited_iff.1 hp).resolved).eq_of_components_eq (d.mem_visited_iff.1 hq).resolved
  have hnodup : (((d.visited roots).map (·.path)).map Path.components).Nodup :=
    d.nodup_visited.map_on hinj
  have hsubset : ((d.visited roots).map (·.path)).map Path.components ⊆
      (d.files ++ roots.map Path.normalize).map Path.components := fun cs hcs => by
    obtain ⟨p, hp, rfl⟩ := List.mem_map.1 hcs
    rcases (d.mem_visited_iff.1 hp).isFile_or_mem with hfile | hroot
    · obtain ⟨f, hf, heq⟩ := List.any_eq_true.1 hfile
      exact List.mem_map.2 ⟨f, List.mem_append_left _ hf, Path.beq_iff.1 heq⟩
    · exact List.mem_map_of_mem (List.mem_append_right _ hroot)
  simpa using (List.subperm_of_subset hnodup hsubset).length_le

/-! ## Loaded programs -/

/-- The modules of a program are those of the closure. -/
theorem mem_modules_iff {m : SourceModule} :
    m ∈ (d.load roots).modules ↔ ∃ p, d.Closure roots p ∧ d.read p = some m := by
  rw [(d.follows _).mem_modules_iff]
  exact exists_congr fun p => and_congr_left' d.closure_iff.symm

/-- The module of a path is the one of the program that has this path. -/
theorem module?_eq_some_iff {m : SourceModule} :
    (d.load roots).module? p = some m ↔
      m ∈ (d.load roots).modules ∧ m.path.components = p.components := by
  constructor
  · intro hm
    have hfound := List.find?_some (p := fun m : SourceModule => m.path == p) hm
    exact ⟨List.mem_of_find?_eq_some hm, Path.beq_iff.1 hfound⟩
  · rintro ⟨hm, hpath⟩
    have hsome : ((d.load roots).module? p).isSome = true :=
      List.find?_isSome.2 ⟨m, hm, Path.beq_iff.2 hpath⟩
    obtain ⟨m', hm'⟩ := Option.isSome_iff_exists.1 hsome
    have hfound := List.find?_some (p := fun m : SourceModule => m.path == p) hm'
    obtain ⟨q, hq, hread⟩ := d.mem_modules_iff.1 hm
    obtain ⟨q', hq', hread'⟩ := d.mem_modules_iff.1 (List.mem_of_find?_eq_some hm')
    rw [d.path_of_read hread] at hpath
    rw [d.path_of_read hread', Path.beq_iff, ← hpath] at hfound
    obtain rfl := hq'.resolved.eq_of_components_eq hq.resolved hfound
    rw [hm', ← hread', hread]

/-- The unreadable files of a program are those of the closure that have no module. -/
theorem mem_unreadable_iff :
    p ∈ (d.load roots).unreadable ↔ d.Closure roots p ∧ d.read p = none := by
  have hunreadable : (d.load roots).unreadable =
      (((d.visited roots).filter (·.module?.isNone)).map (·.path)).mergeSort Path.le := rfl
  rw [hunreadable, List.mem_mergeSort, List.mem_map]
  constructor
  · rintro ⟨v, hv, rfl⟩
    obtain ⟨hvisited, hnone⟩ := List.mem_filter.1 hv
    rw [d.module?_of_mem_visited hvisited, Option.isNone_iff_eq_none] at hnone
    exact ⟨d.mem_visited_iff.1 (List.mem_map_of_mem hvisited), hnone⟩
  · rintro ⟨hp, hnone⟩
    obtain ⟨v, hv, rfl⟩ := List.mem_map.1 (d.mem_visited_iff.2 hp)
    refine ⟨v, List.mem_filter.2 ⟨hv, ?_⟩, rfl⟩
    rw [d.module?_of_mem_visited hv, hnone]
    rfl

/-- The modules of a program have distinct paths. -/
theorem nodup_modules : ((d.load roots).modules.map (·.path)).Nodup := by
  have hpaths : ∀ {visits : List Program.Visit}, (∀ v ∈ visits, v.module? = d.read v.path) →
      (visits.filterMap (·.module?)).map (·.path) =
        (visits.filter (·.module?.isSome)).map (·.path) := fun {visits} h => by
    induction visits with
    | nil => rfl
    | cons v visits ih =>
      have ih := ih fun w hw => h w (List.mem_cons_of_mem v hw)
      cases hm : v.module? with
      | none => simpa [hm] using ih
      | some m =>
        have hpath : m.path = v.path := d.path_of_read ((h v List.mem_cons_self).symm.trans hm)
        simpa [hm, hpath] using ih
  have hmodules : (d.load roots).modules = (d.visited roots).filterMap (·.module?) := rfl
  rw [hmodules, hpaths fun v hv => d.module?_of_mem_visited hv]
  exact d.nodup_visited.sublist (List.filter_sublist.map _)

/-- The unreadable files stand in strict order. -/
theorem pairwise_unreadable : (d.load roots).unreadable.Pairwise fun p q => p.cmp q = .lt := by
  have hsorted := List.pairwise_mergeSort Path.le_trans Path.le_total
    (((d.visited roots).filter (·.module?.isNone)).map (·.path))
  have hnodup : (d.load roots).unreadable.Nodup :=
    (List.mergeSort_perm _ _).nodup_iff.2 (d.nodup_visited.sublist (List.filter_sublist.map _))
  have hresolved : ∀ p ∈ (d.load roots).unreadable, p.Resolved := fun p hp =>
    (d.mem_unreadable_iff.1 hp).1.resolved
  refine (hsorted.and hnodup).imp_of_mem fun {p q} hp hq h => Path.cmp_eq_lt h.1 fun heq => ?_
  exact h.2 ((hresolved p hp).eq_of_components_eq (hresolved q hq) heq)

section SameRoots

variable (h : ∀ r, r ∈ roots.map Path.normalize ↔ r ∈ others.map Path.normalize)

include h

/-- Roots that are the same when normalized have the same closure. -/
theorem closure_congr : d.Closure roots p ↔ d.Closure others p :=
  ⟨.mono fun r => (h r).1, .mono fun r => (h r).2⟩

/-- Roots that are the same when normalized load the same modules. -/
theorem modules_perm : (d.load roots).modules.Perm (d.load others).modules := by
  refine (List.perm_ext_iff_of_nodup d.nodup_modules.of_map d.nodup_modules.of_map).2 fun m => ?_
  rw [d.mem_modules_iff, d.mem_modules_iff]
  exact exists_congr fun p => and_congr_left' (d.closure_congr h)

/-- Roots that are the same when normalized give every path the same module. -/
theorem module?_congr : (d.load roots).module? p = (d.load others).module? p :=
  Option.ext fun m => by
    rw [d.module?_eq_some_iff, d.module?_eq_some_iff, (d.modules_perm h).mem_iff]

/-- Roots that are the same when normalized leave the same files unread. -/
theorem unreadable_congr : (d.load roots).unreadable = (d.load others).unreadable := by
  refine Path.eq_of_pairwise_lt d.pairwise_unreadable d.pairwise_unreadable fun p => ?_
  rw [d.mem_unreadable_iff, d.mem_unreadable_iff, d.closure_congr h]

end SameRoots

/-- **Loading computes the import closure.** The rounds over the work list of the normalized roots
end, after no more reads than there are files and roots. They read each file of the closure once and
no other file; the modules of the program are those of the closure, each once under the path of its
file, and its unreadable files are those of the closure without a module, in order. Roots that are
the same when normalized load the same program, whatever their order and repetition. -/
theorem load_closure (d : FileMap) (roots : List Path) :
    (∃ n, d.round^[n] (roots.map Path.normalize, []) = ([], d.visited roots)) ∧
      (d.visited roots).length ≤ d.files.length + roots.length ∧
      ((d.visited roots).map (·.path)).Nodup ∧
      (∀ p, p ∈ (d.visited roots).map (·.path) ↔ d.Closure roots p) ∧
      (∀ v ∈ d.visited roots, v.module? = d.read v.path) ∧
      (∀ m, m ∈ (d.load roots).modules ↔ ∃ p, d.Closure roots p ∧ d.read p = some m) ∧
      ((d.load roots).modules.map (·.path)).Nodup ∧
      (∀ p, p ∈ (d.load roots).unreadable ↔ d.Closure roots p ∧ d.read p = none) ∧
      (d.load roots).unreadable.Pairwise (fun p q => p.cmp q = .lt) ∧
      ∀ others : List Path,
        (∀ r, r ∈ roots.map Path.normalize ↔ r ∈ others.map Path.normalize) →
          (d.load roots).modules.Perm (d.load others).modules ∧
            (∀ p, (d.load roots).module? p = (d.load others).module? p) ∧
            (d.load roots).unreadable = (d.load others).unreadable := by
  have hstart : d.Invariant (roots.map Path.normalize) (roots.map Path.normalize) [] :=
    Disk.invariant_start <| List.forall_mem_map.2 fun r _ => r.resolved_normalize
  exact ⟨(d.follows _).exists_iterate_round hstart, d.length_visited_le, d.nodup_visited,
    fun p => d.mem_visited_iff, fun v => d.module?_of_mem_visited, fun m => d.mem_modules_iff,
    d.nodup_modules, fun p => d.mem_unreadable_iff, d.pairwise_unreadable,
    fun others h => ⟨d.modules_perm h, fun p => d.module?_congr h, d.unreadable_congr h⟩⟩

/-! ## Two files in a cycle -/

/-- Two files that import each other, and one that cannot be read. -/
def smallFiles : FileMap := ofSources
  [(⟨"/src/a.ts"⟩, "import \x7b B \x7d from './b';\nimport \x7b C \x7d from './c';"),
    (⟨"/src/b.ts"⟩, "export * from './a';"), (⟨"/src/c.ts"⟩, "export function (((")]

/-- The first file has a module, which refers to the other two. -/
theorem exists_read_smallFiles : ∃ m, smallFiles.read ⟨"/src/a.ts"⟩ = some m ∧
    m.RefersTo "./b" ∧ m.RefersTo "./c" := by
  have hread : (smallFiles.read ⟨"/src/a.ts"⟩).map (·.imports.entries) =
      some [("B", ⟨"./b", .named "B"⟩), ("C", ⟨"./c", .named "C"⟩)] := by decide +kernel
  obtain ⟨m, hm, hentries⟩ := Option.map_eq_some_iff.1 hread
  have hvalues : m.imports.values = [⟨"./b", .named "B"⟩, ⟨"./c", .named "C"⟩] :=
    congrArg (List.map Prod.snd) hentries
  refine ⟨m, hm, .inl ?_, .inl ?_⟩ <;> simp [hvalues]

/-- A root in two spellings loads what it loads alone: the module in the cycle with it, and the file
that cannot be read. -/
theorem load_closure_small :
    (∀ r : Path, r ∈ [Path.mk "/src/a.ts"].map Path.normalize ↔
      r ∈ [Path.mk "/src/./a.ts", Path.mk "/src/x/../a.ts"].map Path.normalize) ∧
    (smallFiles.load [⟨"/src/a.ts"⟩]).modules.Perm
      (smallFiles.load [⟨"/src/./a.ts"⟩, ⟨"/src/x/../a.ts"⟩]).modules ∧
    Path.mk "/src/b.ts" ∈ (smallFiles.visited [⟨"/src/a.ts"⟩]).map (·.path) ∧
    Path.mk "/src/c.ts" ∈ (smallFiles.load [⟨"/src/a.ts"⟩]).unreadable := by
  have hroots : [Path.mk "/src/./a.ts", Path.mk "/src/x/../a.ts"].map Path.normalize =
      [⟨"/src/a.ts"⟩, ⟨"/src/a.ts"⟩] := rfl
  have hsame : ∀ r : Path, r ∈ [Path.mk "/src/a.ts"].map Path.normalize ↔
      r ∈ [Path.mk "/src/./a.ts", Path.mk "/src/x/../a.ts"].map Path.normalize := fun r => by
    rw [hroots, show [Path.mk "/src/a.ts"].map Path.normalize = [⟨"/src/a.ts"⟩] from rfl]
    simp
  obtain ⟨-, -, -, hvisited, -, -, -, hunreadable, -, hothers⟩ :=
    load_closure smallFiles [⟨"/src/a.ts"⟩]
  obtain ⟨m, hm, hb, hc⟩ := exists_read_smallFiles
  have hroot : smallFiles.Closure [⟨"/src/a.ts"⟩] ⟨"/src/a.ts"⟩ :=
    .root (r := ⟨"/src/a.ts"⟩) List.mem_cons_self
  refine ⟨hsame, (hothers _ hsame).1, (hvisited _).2 ?_, (hunreadable _).2 ⟨?_, ?_⟩⟩
  · exact .follow hroot hm hb rfl
  · exact .follow hroot hm hc rfl
  · exact Option.isNone_iff_eq_none.1 (by decide +kernel)

end FileMap

end IpcWiring
