import Mathlib.Data.List.Basic
import Mathlib.Logic.Relation
import IpcWiring.Program.Basic
import IpcWiring.Proofs.Specifier

/-!
# Import closures

A program is loaded from a disk (`Disk`): the files that there are, and the module in each. A file
imports the files that the specifiers of its module lead to (`Disk.Imports`), and reaches what is
behind any number of imports (`Disk.Reaches`). A program has just the modules of the files that its
roots reach (`Disk.module?_load_eq_some_iff`): the work list of `Program.visit` only ever holds such
files, and every import of a visited file was visited or waits in it (`Disk.Invariant`). The same
program is loaded from disks that are alike in all that the roots lead to (`Disk.Alike.load_eq`).
-/

namespace IpcWiring

/-- What programs are loaded from: the files that there are, and the module in each. -/
structure Disk where
  files : List Path
  read : Path → Option SourceModule

namespace Disk

variable {d : Disk} {p q : Path}

/-! ## Imports -/

/-- The path names a file. -/
def isFile (d : Disk) (p : Path) : Bool := d.files.any (· == p)

/-- The program that some root files reach. -/
def load (d : Disk) (roots : List Path) : Program := Program.load d.files d.read roots

/-- The module of a file imports or exports from another one. -/
def Imports (d : Disk) (p q : Path) : Prop :=
  ∃ m, d.read p = some m ∧ q ∈ Program.importedFiles d.isFile m

/-- Any number of imports lead from a file to another one. -/
def Reaches (d : Disk) : Path → Path → Prop := Relation.ReflTransGen d.Imports

/-- Files have absolute paths, modules have the paths of their files, and only files have modules.
-/
structure Lawful (d : Disk) : Prop where
  absolute : ∀ {p}, d.isFile p = true → Component.root ∈ p.components
  path_eq : ∀ {p m}, d.read p = some m → m.path = p
  isFile : ∀ {p m}, p.Full → d.read p = some m → d.isFile p = true

/-- An import leads to a file with a resolved path. -/
theorem Imports.resolved (h : d.Imports p q) : d.isFile q = true ∧ q.Resolved := by
  obtain ⟨m, -, hq⟩ := h
  obtain ⟨specifier, -, hs⟩ := List.mem_filterMap.1 hq
  exact Specifier.resolve_eq_some hs

/-- A resolved path reaches resolved paths. -/
theorem resolved_of_reaches (h : d.Reaches p q) (hp : p.Resolved) : q.Resolved := by
  cases h with
  | refl => exact hp
  | tail _ hlast => exact hlast.resolved.2

/-- An import leads to a file with a full path. -/
theorem Lawful.full (hd : d.Lawful) (h : d.Imports p q) : d.isFile q = true ∧ q.Full :=
  ⟨h.resolved.1, h.resolved.2, hd.absolute h.resolved.1⟩

/-- A full path reaches full paths. -/
theorem Lawful.full_of_reaches (hd : d.Lawful) (h : d.Reaches p q) (hp : p.Full) : q.Full := by
  cases h with
  | refl => exact hp
  | tail _ hlast => exact (hd.full hlast).2

/-- A file that imports nothing reaches only itself. -/
theorem eq_of_reaches (hnone : ∀ r, ¬ d.Imports p r) (h : d.Reaches p q) : q = p := by
  rcases Relation.ReflTransGen.cases_head h with rfl | ⟨r, himp, -⟩
  exacts [rfl, absurd himp (hnone r)]

/-! ## Visits -/

/-- A file was visited or waits to be. -/
def Met (pending : List Path) (visits : List Program.Visit) (p : Path) : Prop :=
  (∃ v ∈ visits, v.path = p) ∨ p ∈ pending

/-- Only reached files are met, and all that they import is. -/
structure Invariant (d : Disk) (roots pending : List Path) (visits : List Program.Visit) :
    Prop where
  visited : ∀ v ∈ visits, v.path.Resolved ∧ v.module? = d.read v.path ∧
    ∃ r ∈ roots, d.Reaches r v.path
  waiting : ∀ p ∈ pending, p.Resolved ∧ ∃ r ∈ roots, d.Reaches r p
  roots : ∀ r ∈ roots, Met pending visits r
  imports : ∀ v ∈ visits, ∀ q, d.Imports v.path q → Met pending visits q

variable {roots pending : List Path} {visits : List Program.Visit}

/-- At the start the roots wait. -/
theorem invariant_start (h : ∀ r ∈ roots, r.Resolved) : d.Invariant roots roots [] where
  visited := nofun
  waiting p hp := ⟨h p hp, p, hp, .refl⟩
  roots _ hr := .inr hr
  imports := nofun

/-- A resolved path that was visited is the path of a visit. -/
theorem Invariant.isVisited_iff (h : d.Invariant roots pending visits) (hp : p.Resolved) :
    Program.isVisited visits p = true ↔ ∃ v ∈ visits, v.path = p := by
  rw [Program.isVisited, List.any_eq_true]
  exact exists_congr fun v => and_congr_right fun hv => (h.visited v hv).1.beq_iff_eq hp

/-- A waiting file that was visited is dropped. -/
theorem Invariant.drop (h : d.Invariant roots (p :: pending) visits)
    (hold : ∃ v ∈ visits, v.path = p) : d.Invariant roots pending visits := by
  have hmet : ∀ q, Met (p :: pending) visits q → Met pending visits q := fun q hq => by
    rcases hq with hq | hq
    · exact .inl hq
    · rcases List.mem_cons.1 hq with rfl | hq
      exacts [.inl hold, .inr hq]
  exact ⟨h.visited, fun q hq => h.waiting q (List.mem_cons_of_mem p hq),
    fun r hr => hmet r (h.roots r hr), fun v hv q hq => hmet q (h.imports v hv q hq)⟩

/-- A waiting file is visited, and what it imports waits. -/
theorem Invariant.visit (h : d.Invariant roots (p :: pending) visits) {more : List Path}
    (hmore : ∀ q, q ∈ more ↔ d.Imports p q) :
    d.Invariant roots (pending ++ more) (visits ++ [⟨p, d.read p⟩]) := by
  obtain ⟨hres, r, hr, hreach⟩ := h.waiting p List.mem_cons_self
  have hmet : ∀ q, Met (p :: pending) visits q →
      Met (pending ++ more) (visits ++ [⟨p, d.read p⟩]) q := fun q hq => by
    rcases hq with ⟨v, hv, hpath⟩ | hq
    · exact .inl ⟨v, List.mem_append_left _ hv, hpath⟩
    · rcases List.mem_cons.1 hq with rfl | hq
      · exact .inl ⟨⟨q, d.read q⟩, by simp, rfl⟩
      · exact .inr (List.mem_append_left _ hq)
  refine ⟨fun v hv => ?_, fun q hq => ?_, fun r hr => hmet r (h.roots r hr), fun v hv q hq => ?_⟩
  · rcases List.mem_append.1 hv with hv | hv
    · exact h.visited v hv
    · rw [List.mem_singleton.1 hv]
      exact ⟨hres, rfl, r, hr, hreach⟩
  · rcases List.mem_append.1 hq with hq | hq
    · exact h.waiting q (List.mem_cons_of_mem p hq)
    · have himp := (hmore q).1 hq
      exact ⟨himp.resolved.2, r, hr, hreach.tail himp⟩
  · rcases List.mem_append.1 hv with hv | hv
    · exact hmet q (h.imports v hv q hq)
    · rw [List.mem_singleton.1 hv] at hq
      exact .inr (List.mem_append_right _ ((hmore q).2 hq))

/-- Modules have the paths of their files, and of what the roots reach only files have modules. -/
structure Follows (d : Disk) (roots : List Path) : Prop where
  path_eq : ∀ {p m}, d.read p = some m → m.path = p
  isFile : ∀ {p m}, (∃ r ∈ roots, d.Reaches r p) → d.read p = some m → d.isFile p = true

/-- Imports can be followed from full paths. -/
theorem Lawful.follows (hd : d.Lawful) (h : ∀ r ∈ roots, r.Full) : d.Follows roots where
  path_eq := hd.path_eq
  isFile := fun ⟨r, hr, hreach⟩ hm => hd.isFile (hd.full_of_reaches hreach (h r hr)) hm

/-- Visiting what waits keeps the invariant until nothing waits any more. -/
theorem Follows.invariant_visit (hd : d.Follows roots) (h : d.Invariant roots pending visits) :
    d.Invariant roots [] (Program.visit d.files d.read (Program.importedFiles d.isFile) pending
      visits) := by
  induction pending, visits using Program.visit.induct d.files d.read
    (Program.importedFiles d.isFile) with
  | case1 visits => simpa [Program.visit] using h
  | case2 visits p rest hold ih =>
    rw [Program.visit, dif_pos hold]
    exact ih (h.drop ((h.isVisited_iff (h.waiting p List.mem_cons_self).1).1 hold))
  | case3 visits p rest hnew v hfile ih =>
    rw [Program.visit, dif_neg hnew, dif_pos hfile]
    refine ih (h.visit fun q => ?_)
    cases hread : d.read p <;> simp [v, hread, Imports]
  | case4 visits p rest hnew v hfile ih =>
    rw [Program.visit, dif_neg hnew, dif_neg hfile]
    have hnone : d.read p = none := by
      cases hread : d.read p with
      | none => rfl
      | some m => exact absurd (hd.isFile (h.waiting p List.mem_cons_self).2 hread) hfile
    have hvisit : d.Invariant roots (rest ++ []) (visits ++ [⟨p, d.read p⟩]) :=
      h.visit fun q => by simp [Imports, hnone]
    exact ih (by simpa using hvisit)

/-! ## Loaded programs -/

/-- The visits of a program: those of the files that its roots reach. -/
def visited (d : Disk) (roots : List Path) : List Program.Visit :=
  Program.visit d.files d.read (Program.importedFiles d.isFile) (roots.map Path.normalize) []

/-- Every visit holds what the disk has under its path. -/
theorem module?_of_mem_visit {files : List Path} {imported : SourceModule → List Path}
    (h : ∀ v ∈ visits, v.module? = d.read v.path) :
    ∀ v ∈ Program.visit files d.read imported pending visits, v.module? = d.read v.path := by
  have hsnoc : ∀ (visits : List Program.Visit) (p : Path),
      (∀ v ∈ visits, v.module? = d.read v.path) →
        ∀ v ∈ visits ++ [⟨p, d.read p⟩], v.module? = d.read v.path := fun visits p h v hv => by
    rcases List.mem_append.1 hv with hv | hv
    · exact h v hv
    · rw [List.mem_singleton.1 hv]
  induction pending, visits using Program.visit.induct files d.read imported with
  | case1 visits => simpa [Program.visit] using h
  | case2 visits p rest hold ih =>
    rw [Program.visit, dif_pos hold]
    exact ih h
  | case3 visits p rest hnew v hfile ih =>
    rw [Program.visit, dif_neg hnew, dif_pos hfile]
    exact ih (hsnoc visits p h)
  | case4 visits p rest hnew v hfile ih =>
    rw [Program.visit, dif_neg hnew, dif_neg hfile]
    exact ih (hsnoc visits p h)

/-- Every module of a program is on the disk. -/
theorem exists_read_of_mem_load {m : SourceModule} (h : m ∈ (d.load roots).modules) :
    ∃ p, d.read p = some m := by
  obtain ⟨v, hv, hm⟩ := List.mem_filterMap.1 h
  have hnone : ∀ v ∈ ([] : List Program.Visit), v.module? = d.read v.path := nofun
  exact ⟨v.path, (module?_of_mem_visit hnone v hv).symm.trans hm⟩

/-- Normalizing changes no resolved path. -/
theorem map_normalize (h : ∀ r ∈ roots, r.Resolved) : roots.map Path.normalize = roots := by
  conv_rhs => rw [← List.map_id roots]
  exact List.map_congr_left fun r hr => (h r hr).normalize_eq

/-- What was visited when nothing waits any more. -/
theorem Follows.invariant_visited (hd : d.Follows (roots.map Path.normalize)) :
    d.Invariant (roots.map Path.normalize) [] (d.visited roots) :=
  hd.invariant_visit <| invariant_start <| List.forall_mem_map.2 fun r _ => r.resolved_normalize

/-- The files that are visited are those that the roots reach. -/
theorem Follows.visited_iff (hd : d.Follows (roots.map Path.normalize)) :
    (∃ v ∈ d.visited roots, v.path = p) ↔ ∃ r ∈ roots.map Path.normalize, d.Reaches r p := by
  have hinv := hd.invariant_visited
  have hmet : ∀ q, Met [] (d.visited roots) q → ∃ v ∈ d.visited roots, v.path = q := fun q hq =>
    hq.resolve_right nofun
  constructor
  · rintro ⟨v, hv, rfl⟩
    exact (hinv.visited v hv).2.2
  · rintro ⟨r, hr, hreach⟩
    induction hreach with
    | refl => exact hmet r (hinv.roots r hr)
    | tail _ himp ih =>
      obtain ⟨v, hv, rfl⟩ := ih
      exact hmet _ (hinv.imports v hv _ himp)

/-- The modules of a program are those of the files that its roots reach. -/
theorem Follows.mem_modules_iff (hd : d.Follows (roots.map Path.normalize)) {m : SourceModule} :
    m ∈ (d.load roots).modules ↔
      ∃ p, (∃ r ∈ roots.map Path.normalize, d.Reaches r p) ∧ d.read p = some m := by
  have hinv := hd.invariant_visited
  have hmodules : (d.load roots).modules = (d.visited roots).filterMap (·.module?) := rfl
  rw [hmodules, List.mem_filterMap]
  constructor
  · rintro ⟨v, hv, hm⟩
    obtain ⟨-, hread, hreach⟩ := hinv.visited v hv
    exact ⟨v.path, hreach, hread ▸ hm⟩
  · rintro ⟨p, hreach, hread⟩
    obtain ⟨v, hv, rfl⟩ := hd.visited_iff.2 hreach
    exact ⟨v, hv, (hinv.visited v hv).2.1.trans hread⟩

/-- The module of a file in a program, which is the one on the disk if a root reaches the file. -/
theorem Follows.module?_load_eq_some_iff (hd : d.Follows (roots.map Path.normalize))
    (hp : p.Resolved) {m : SourceModule} : (d.load roots).module? p = some m ↔
      (∃ r ∈ roots.map Path.normalize, d.Reaches r p) ∧ d.read p = some m := by
  have hmem := fun {m} => hd.mem_modules_iff (m := m)
  have hresolved : ∀ {q}, (∃ r ∈ roots.map Path.normalize, d.Reaches r q) → q.Resolved := by
    rintro q ⟨r, hr, hreach⟩
    obtain ⟨root, -, rfl⟩ := List.mem_map.1 hr
    exact resolved_of_reaches hreach root.resolved_normalize
  have hpath : ∀ {m q}, d.read q = some m → q.Resolved → ((m.path == p) = true ↔ q = p) :=
    fun hread hq => by rw [hd.path_eq hread, hq.beq_iff_eq hp]
  constructor
  · intro hm
    obtain ⟨q, hreach, hread⟩ := hmem.1 (List.mem_of_find?_eq_some hm)
    have hfound : (m.path == p) = true :=
      List.find?_some (p := fun m : SourceModule => m.path == p) hm
    obtain rfl := (hpath hread (hresolved hreach)).1 hfound
    exact ⟨hreach, hread⟩
  · rintro ⟨hreach, hread⟩
    have hin := hmem.2 ⟨p, hreach, hread⟩
    rw [Program.module?]
    cases hfind : (d.load roots).modules.find? (·.path == p) with
    | none =>
      refine absurd ((hpath hread (hresolved hreach)).2 rfl) ?_
      exact List.find?_eq_none.1 hfind m hin
    | some m' =>
      obtain ⟨q, hreach', hread'⟩ := hmem.1 (List.mem_of_find?_eq_some hfind)
      have hfound : (m'.path == p) = true :=
        List.find?_some (p := fun m : SourceModule => m.path == p) hfind
      obtain rfl := (hpath hread' (hresolved hreach')).1 hfound
      rw [← hread', hread]

/-- A file is loaded if it has a module in the program. -/
theorem isLoaded_eq_isSome (p : Program) (file : Path) :
    p.isLoaded file = (p.module? file).isSome := by
  rw [Program.isLoaded, Program.module?, List.isSome_find?]

/-- A file has a module in a program if a root reaches it and it has one on the disk. -/
theorem Follows.isLoaded_load_iff (hd : d.Follows (roots.map Path.normalize)) (hp : p.Resolved) :
    (d.load roots).isLoaded p = true ↔
      (∃ r ∈ roots.map Path.normalize, d.Reaches r p) ∧ (d.read p).isSome = true := by
  rw [isLoaded_eq_isSome, Option.isSome_iff_exists, Option.isSome_iff_exists, ← exists_and_left]
  exact exists_congr fun m => hd.module?_load_eq_some_iff hp

/-- A specifier of a module leads to a file that its own file imports. -/
theorem Follows.imports_of_resolve (hd : d.Follows roots) {m : SourceModule}
    (hm : d.read p = some m) {specifier : String} (hs : specifier ∈ m.dependencies)
    (hq : Specifier.resolve d.isFile p specifier = some q) : d.Imports p q := by
  refine ⟨m, hm, List.mem_filterMap.2 ⟨specifier, hs, ?_⟩⟩
  rw [hd.path_eq hm]
  exact hq

/-- A specifier of a visited module leads where it leads on the disk, if the file there can be
read. -/
theorem Follows.targetOf_load (hd : d.Follows (roots.map Path.normalize))
    (hp : ∃ r ∈ roots.map Path.normalize, d.Reaches r p) {m : SourceModule}
    (hm : d.read p = some m) {specifier : String} (hs : specifier ∈ m.dependencies)
    (hread : ∀ q, Specifier.resolve d.isFile p specifier = some q → (d.read q).isSome = true) :
    (d.load roots).targetOf p specifier = Specifier.resolve d.isFile p specifier := by
  obtain ⟨r, hr, hreach⟩ := hp
  refine Specifier.resolve_eq_of_imp (fun q hq hload => ?_) fun q hq => ?_
  · obtain ⟨hreach', hsome⟩ := (hd.isLoaded_load_iff hq).1 hload
    obtain ⟨m', hm'⟩ := Option.isSome_iff_exists.1 hsome
    exact hd.isFile hreach' hm'
  · have himp := hd.imports_of_resolve hm hs hq
    exact (hd.isLoaded_load_iff himp.resolved.2).2 ⟨⟨r, hr, hreach.tail himp⟩, hread q hq⟩

section Lawful

variable (hd : d.Lawful) (h : ∀ r ∈ roots, r.Full)

include hd h

/-- Imports can be followed from full paths as they are normalized. -/
theorem Lawful.follows_normalize : d.Follows (roots.map Path.normalize) := by
  rw [map_normalize fun r hr => (h r hr).resolved]
  exact hd.follows h

/-- The modules of a program are those of the files that its full roots reach. -/
theorem Lawful.mem_modules_iff {m : SourceModule} :
    m ∈ (d.load roots).modules ↔ ∃ p, (∃ r ∈ roots, d.Reaches r p) ∧ d.read p = some m := by
  rw [(hd.follows_normalize h).mem_modules_iff, map_normalize fun r hr => (h r hr).resolved]

/-- The module of a file in a program of full roots. -/
theorem Lawful.module?_load_eq_some_iff (hp : p.Resolved) {m : SourceModule} :
    (d.load roots).module? p = some m ↔ (∃ r ∈ roots, d.Reaches r p) ∧ d.read p = some m := by
  rw [(hd.follows_normalize h).module?_load_eq_some_iff hp,
    map_normalize fun r hr => (h r hr).resolved]

/-- A file has a module in a program of full roots if one of them reaches it and it has one on the
disk. -/
theorem Lawful.isLoaded_load_iff (hp : p.Resolved) :
    (d.load roots).isLoaded p = true ↔
      (∃ r ∈ roots, d.Reaches r p) ∧ (d.read p).isSome = true := by
  rw [(hd.follows_normalize h).isLoaded_load_iff hp, map_normalize fun r hr => (h r hr).resolved]

end Lawful

/-- The specifiers of a visited module lead where they lead on the disk, if every file that the
roots reach has a module. -/
theorem Lawful.targetOf_load (hd : d.Lawful) (h : ∀ r ∈ roots, r.Full)
    (hread : ∀ q, (∃ r ∈ roots, d.Reaches r q) → (d.read q).isSome = true)
    (hp : ∃ r ∈ roots, d.Reaches r p) {m : SourceModule} (hm : d.read p = some m)
    {specifier : String} (hs : specifier ∈ m.dependencies) :
    (d.load roots).targetOf p specifier = Specifier.resolve d.isFile p specifier := by
  have hnormal := map_normalize fun r hr => (h r hr).resolved
  obtain ⟨r, hr, hreach⟩ := hp
  refine (hd.follows_normalize h).targetOf_load ⟨r, hnormal.symm ▸ hr, hreach⟩ hm hs fun q hq => ?_
  exact hread q ⟨r, hr, hreach.tail ((hd.follows h).imports_of_resolve hm hs hq)⟩

/-! ## Disks that agree -/

/-- The files of one disk are files of another one, and the two agree but for some paths. -/
structure AgreeBut (except : Path → Prop) (d e : Disk) : Prop where
  isFile_imp : ∀ {p}, p.Resolved → d.isFile p = true → e.isFile p = true
  isFile_eq : ∀ {p}, p.Full → ¬ except p → d.isFile p = e.isFile p
  read_eq : ∀ {p}, p.Full → ¬ except p → d.read p = e.read p

section AgreeBut

variable {e : Disk} {except : Path → Prop} {root : Path}

/-- A file imports the same on both disks if no import on the larger one is an exception. -/
theorem AgreeBut.imports_iff (h : AgreeBut except d e) (he : e.Lawful) (hp : p.Full)
    (hpe : ¬ except p) (hclear : ∀ q, e.Imports p q → ¬ except q) :
    d.Imports p q ↔ e.Imports p q := by
  refine exists_congr fun m => ?_
  rw [h.read_eq hp hpe]
  refine and_congr_right fun hm => ?_
  have hsame : Program.importedFiles d.isFile m = Program.importedFiles e.isFile m := by
    refine List.filterMap_congr fun specifier hs => ?_
    refine Specifier.resolve_eq_of_imp (fun q => h.isFile_imp) fun q hq => ?_
    have himp : e.Imports p q := ⟨m, hm, List.mem_filterMap.2 ⟨specifier, hs, hq⟩⟩
    obtain ⟨hfile, hfull⟩ := he.full himp
    rw [h.isFile_eq hfull (hclear q himp)]
    exact hfile
  rw [hsame]

/-- A file reaches the same on both disks if it reaches no exception on the larger one. -/
theorem AgreeBut.reaches_iff (h : AgreeBut except d e) (he : e.Lawful) (hroot : root.Full)
    (hclear : ∀ q, e.Reaches root q → ¬ except q) : d.Reaches root q ↔ e.Reaches root q := by
  have hstep : ∀ {p}, e.Reaches root p → ∀ q, (d.Imports p q ↔ e.Imports p q) := fun hp q =>
    h.imports_iff he (he.full_of_reaches hp hroot) (hclear _ hp) fun r hr =>
      hclear r (hp.tail hr)
  constructor
  · intro hq
    induction hq with
    | refl => exact .refl
    | tail _ himp ih => exact ih.tail ((hstep ih _).1 himp)
  · intro hq
    induction hq with
    | refl => exact .refl
    | tail hp himp ih => exact ih.tail ((hstep hp _).2 himp)

end AgreeBut

/-! ## Disks that load the same -/

/-- The disks have the same under some paths that no import leads out of, and on both the modules
there import the same files. -/
structure Alike (S : Path → Prop) (d e : Disk) : Prop where
  isFile_eq : ∀ {p}, S p → d.isFile p = e.isFile p
  read_eq : ∀ {p}, S p → d.read p = e.read p
  importedFiles_eq : ∀ {p m}, S p → d.read p = some m →
    Program.importedFiles d.isFile m = Program.importedFiles e.isFile m
  closed : ∀ {p q}, S p → d.Imports p q → S q

section Alike

variable {e : Disk} {S : Path → Prop}

/-- Visiting comes to the same if all that waits is alike. -/
theorem Alike.visit_eq (h : Alike S d e) (hpending : ∀ p ∈ pending, S p) :
    Program.visit d.files d.read (Program.importedFiles d.isFile) pending visits =
      Program.visit e.files e.read (Program.importedFiles e.isFile) pending visits := by
  induction pending, visits using Program.visit.induct d.files d.read
    (Program.importedFiles d.isFile) with
  | case1 visits => rw [Program.visit, Program.visit]
  | case2 visits p rest hold ih =>
    rw [Program.visit, dif_pos hold, Program.visit, dif_pos hold]
    exact ih fun q hq => hpending q (List.mem_cons_of_mem p hq)
  | case3 visits p rest hnew v hfile ih =>
    have hp := hpending p List.mem_cons_self
    have himported : (d.read p).map (Program.importedFiles d.isFile) =
        (d.read p).map (Program.importedFiles e.isFile) :=
      Option.map_congr fun m hm => h.importedFiles_eq hp hm
    have hfile' : e.files.any (· == p) = true := (h.isFile_eq hp).symm.trans hfile
    have hmore : ∀ q ∈ rest ++ ((d.read p).map (Program.importedFiles d.isFile)).getD [], S q := by
      intro q hq
      rcases List.mem_append.1 hq with hq | hq
      · exact hpending q (List.mem_cons_of_mem p hq)
      · cases hread : d.read p with
        | none => simp [hread] at hq
        | some m => exact h.closed hp ⟨m, hread, by simpa [hread] using hq⟩
    rw [Program.visit, dif_neg hnew, dif_pos hfile]
    conv_rhs => rw [Program.visit, dif_neg hnew, dif_pos hfile', ← h.read_eq hp, ← himported]
    exact ih hmore
  | case4 visits p rest hnew v hfile ih =>
    have hp := hpending p List.mem_cons_self
    have hfile' : ¬ e.files.any (· == p) = true := fun hin =>
      hfile ((h.isFile_eq hp).trans hin)
    rw [Program.visit, dif_neg hnew, dif_neg hfile]
    conv_rhs => rw [Program.visit, dif_neg hnew, dif_neg hfile', ← h.read_eq hp]
    exact ih fun q hq => hpending q (List.mem_cons_of_mem p hq)

/-- Programs are the same if their roots are alike. -/
theorem Alike.load_eq (h : Alike S d e) (hroots : ∀ r ∈ roots, r.Full ∧ S r) :
    d.load roots = e.load roots := by
  have hvisited : d.visited roots = e.visited roots := by
    rw [visited, visited, map_normalize fun r hr => (hroots r hr).1.resolved]
    exact h.visit_eq fun r hr => (hroots r hr).2
  have hload : ∀ d : Disk, d.load roots =
      ⟨(d.visited roots).filterMap (·.module?),
        (((d.visited roots).filter (·.module?.isNone)).map (·.path)).mergeSort Path.le⟩ :=
    fun _ => rfl
  rw [hload, hload, hvisited]

end Alike

end Disk

end IpcWiring
