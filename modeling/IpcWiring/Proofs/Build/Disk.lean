import IpcWiring.Build.Plan
import IpcWiring.Proofs.Extract.Names
import IpcWiring.Proofs.Program.Locality
import IpcWiring.Proofs.Project

/-!
# Disks of file trees

The programs of a file tree are loaded from its disk (`Disk.ofTree`). On a well-formed tree this
disk is lawful (`FileTree.WellFormed.lawful`): a resolved path names a file on it if it is absolute
and a file stands at its place. Two trees that have the same files, but for some places in which
only the second one may have files, have disks that agree but for these places
(`FileTree.agreeBut_of_contentAt?`).
-/

namespace IpcWiring

/-! ## Paths of a place -/

/-- Either path of a place starts at the root. -/
theorem FileTree.root_mem_of_mem_pathsOf {place : Place} {p : Path}
    (h : p ∈ FileTree.pathsOf place) : Component.root ∈ p.components := by
  simp only [FileTree.pathsOf, List.mem_cons, List.not_mem_nil, or_false] at h
  rcases h with rfl | rfl
  · exact Path.root_mem_components (Path.isAbsolute_separator_append _)
  · refine Path.root_mem_components ?_
    simp [Path.isAbsolute]

/-- Either path of a place below the root is written from its names, behind the root or behind a
`..` at the root. -/
theorem FileTree.pathsOf_eq {place : Place} (hne : place ≠ []) : FileTree.pathsOf place =
    [[.root], [.root, .up]].map fun front => Path.ofComponents (front ++ place.map .name) := by
  have hup : Path.mk ("/../" ++ Text.joinWith "/" place) =
      Path.ofComponents (.root :: .up :: place.map .name) := by
    have htext : (place.map Component.name).map Component.text = place := by
      rw [List.map_map]
      exact List.map_id' place
    rw [Path.ofComponents, List.map_cons, htext, Text.joinWith, Text.joinWith,
      ← List.singleton_append, String.intercalate_append_of_ne_nil (List.cons_ne_nil _ _) hne,
      String.intercalate_singleton, ← String.append_assoc, ← String.append_assoc]
    rfl
  rw [FileTree.pathsOf, Path.pathOf_eq_ofComponents, hup]
  rfl

namespace Disk

/-- The files of a tree, by all resolved paths that lead to them, and the modules in them. -/
def ofTree (t : FileTree) : Disk where
  files := t.files.flatMap fun (place, _) => FileTree.pathsOf place
  read path := (t.readText? path).bind (SourceModule.parse? path)

end Disk

/-- The programs of a tree are loaded from its disk. -/
theorem Project.program_eq_load (t : FileTree) (roots : List Path) :
    Project.program t roots = (Disk.ofTree t).load roots := rfl

namespace FileTree

variable {t u : FileTree} {p : Path}

/-! ## What is on the disk of a tree -/

/-- The files of a tree have absolute paths. -/
theorem root_mem_of_isFile (h : (Disk.ofTree t).isFile p = true) :
    Component.root ∈ p.components := by
  obtain ⟨f, hf, heq⟩ := List.any_eq_true.1 h
  obtain ⟨⟨place, content⟩, -, hpath⟩ := List.mem_flatMap.1 hf
  exact Path.beq_iff.1 heq ▸ root_mem_of_mem_pathsOf hpath

/-- A full path names a file if one stands at its place. -/
theorem WellFormed.isFile_iff (h : t.WellFormed) (hp : p.Full) :
    (Disk.ofTree t).isFile p = true ↔ (t.contentAt? p.place).isSome = true := by
  obtain ⟨⟨front, hfront, hcs⟩, -⟩ := Path.components_eq_place hp.resolved.components
  have hrooted : front = [.root] ∨ front = [.root, .up] := by
    have habs := hp.absolute
    rw [hcs] at habs
    simp only [Component.fronts, List.mem_cons, List.not_mem_nil, or_false] at hfront
    rcases hfront with rfl | rfl | rfl | rfl
    · simp at habs
    · exact .inl rfl
    · simp at habs
    · exact .inr rfl
  have hfile : (Disk.ofTree t).isFile p = true ↔
      ∃ place content, (place, content) ∈ t.files ∧ ∃ f ∈ pathsOf place, f == p := by
    simp [Disk.isFile, Disk.ofTree]
  rw [hfile]
  constructor
  · rintro ⟨place, content, hin, f, hf, heq⟩
    have hc := h.mem_files_iff.1 hin
    have hnames : ∀ s ∈ place, IsEntryName s := fun s hs =>
      h.isEntryName _ (isSome_entryAt?_iff.2 (.inr (by rw [hc]; rfl))) hs
    have hne : place ≠ [] := fun hnil => by rw [hnil] at hc; cases hc
    rw [pathsOf_eq hne, List.mem_map] at hf
    obtain ⟨front', hfront', rfl⟩ := hf
    have hmem : front' ∈ Component.fronts := by
      simp only [List.mem_cons, List.not_mem_nil, or_false] at hfront'
      rcases hfront' with rfl | rfl <;> simp [Component.fronts]
    have hplace : p.place = place := by
      rw [Path.place, ← Path.beq_iff.1 heq,
        Path.components_ofComponents_of_resolved ⟨front', hmem, place, hnames, rfl⟩,
        List.filterMap_append, Component.filterMap_name?_front hmem, Component.filterMap_name?,
        List.nil_append]
    rw [hplace, hc]
    rfl
  · intro hsome
    obtain ⟨content, hc⟩ := Option.isSome_iff_exists.1 hsome
    have hne : p.place ≠ [] := fun hnil => by rw [hnil] at hc; cases hc
    refine ⟨p.place, content, h.mem_files_iff.2 hc, p, ?_, Path.beq_iff.2 rfl⟩
    rw [pathsOf_eq hne, List.mem_map]
    refine ⟨front, ?_, by rw [← hcs, hp.resolved.written]⟩
    rcases hrooted with rfl | rfl <;> simp

/-- The module in a file is read from the content at the file's place. -/
theorem WellFormed.read_eq (h : t.WellFormed) (hp : p.Resolved) : (Disk.ofTree t).read p =
    ((t.contentAt? p.place).bind String.fromUTF8?).bind (SourceModule.parse? p) := by
  refine congrArg (Option.bind · (SourceModule.parse? p)) ?_
  rw [h.readText?_eq hp.components]
  by_cases hnil : p.place = []
  · rw [hnil]
    split <;> rfl
  · rw [endsAsDirectory_of_resolved hp hnil]
    rfl

/-- The disk of a well-formed tree is lawful. -/
theorem WellFormed.lawful (h : t.WellFormed) : (Disk.ofTree t).Lawful where
  absolute := root_mem_of_isFile
  path_eq hm := by
    obtain ⟨text, -, hparse⟩ := Option.bind_eq_some_iff.1 hm
    exact (SourceModule.parse?_eq_some hparse).1
  isFile {p m} hp hm := by
    rw [h.isFile_iff hp]
    rw [h.read_eq hp.resolved, Option.bind_eq_some_iff] at hm
    obtain ⟨text, htext, -⟩ := hm
    obtain ⟨content, hc, -⟩ := Option.bind_eq_some_iff.1 htext
    rw [hc]
    rfl

/-! ## Trees with the same files -/

/-- Trees with the same files, but for some places in which only the second one may have more, have
disks that agree but for these places. -/
theorem agreeBut_of_contentAt? (ht : t.WellFormed) (hu : u.WellFormed) {places : List Place}
    (hfiles : ∀ q, (t.contentAt? q).isSome = true → (u.contentAt? q).isSome = true)
    (hsame : ∀ q, q ∉ places → t.contentAt? q = u.contentAt? q) :
    Disk.AgreeBut (fun p => p.place ∈ places) (Disk.ofTree t) (Disk.ofTree u) where
  isFile_imp {p} hp hfile := by
    have hfull : p.Full := ⟨hp, root_mem_of_isFile hfile⟩
    exact (hu.isFile_iff hfull).2 (hfiles _ ((ht.isFile_iff hfull).1 hfile))
  isFile_eq {p} hp hnot := by
    rw [Bool.eq_iff_iff, ht.isFile_iff hp, hu.isFile_iff hp, hsame _ hnot]
  read_eq {p} hp hnot := by
    rw [ht.read_eq hp.resolved, hu.read_eq hp.resolved, hsame _ hnot]

/-- Writing changes files only at the places that are written. -/
theorem WrittenAt.contentAt?_eq {places : List Place} (h : WrittenAt places t u) {q : Place}
    (hq : q ∉ places) : t.contentAt? q = u.contentAt? q := by
  cases hentry : t.entryAt? q with
  | some e => rw [contentAt?, contentAt?, h.keeps q e hq hentry, hentry]
  | none =>
    have hnone : t.contentAt? q = none := by rw [contentAt?, hentry]
    cases hc : u.contentAt? q with
    | none => exact hnone
    | some content =>
      have hsome : (u.contentAt? q).isSome = true := by rw [hc]; rfl
      rcases h.adds q hentry (isSome_entryAt?_iff.2 (.inr hsome)) with ⟨hin, -⟩ | ⟨-, hdir⟩
      · exact absurd hin hq
      · rw [isDirectoryAt_of_contentAt? _ hsome] at hdir
        cases hdir

/-- The disks before and after writing agree but for the places that are written. -/
theorem WrittenAt.agreeBut {places : List Place} (h : WrittenAt places t u) (ht : t.WellFormed) :
    Disk.AgreeBut (fun p => p.place ∈ places) (Disk.ofTree t) (Disk.ofTree u) :=
  agreeBut_of_contentAt? ht h.wellFormed h.files fun _ => h.contentAt?_eq

/-- Writing makes a file of no path to another place. -/
theorem WrittenAt.isFile_eq {places : List Place} (h : WrittenAt places t u) (ht : t.WellFormed)
    (hp : p.Resolved) (hnot : p.place ∉ places) :
    (Disk.ofTree t).isFile p = (Disk.ofTree u).isFile p := by
  by_cases habsolute : Component.root ∈ p.components
  · exact (h.agreeBut ht).isFile_eq ⟨hp, habsolute⟩ hnot
  · rw [Bool.eq_false_iff.2 fun hfile => habsolute (root_mem_of_isFile hfile),
      Bool.eq_false_iff.2 fun hfile => habsolute (root_mem_of_isFile hfile)]

end FileTree

/-- No import in the program can stand for a file at one of the places. -/
def Program.KeepsFrom (places : List Place) (program : Program) : Prop :=
  ∀ m ∈ program.modules, ∀ specifier ∈ m.dependencies, Specifier.isRelative specifier = true →
    ∀ q ∈ Specifier.candidates (Specifier.target m.path specifier), q.place ∉ places

namespace FileTree

variable {t u : FileTree}

/-- Where no import can stand for a file that is written, the same program is loaded after writing.
-/
theorem WrittenAt.program_eq {places : List Place} (h : WrittenAt places t u) (ht : t.WellFormed)
    {roots : List Path} (hroots : ∀ r ∈ roots, r.Full ∧ r.place ∉ places)
    (hkeeps : (Project.program t roots).KeepsFrom places) :
    Project.program t roots = Project.program u roots := by
  have hlawful := ht.lawful
  have halike : Disk.Alike (fun q => q.Full ∧ q.place ∉ places ∧
      ∃ r ∈ roots, (Disk.ofTree t).Reaches r q) (Disk.ofTree t) (Disk.ofTree u) := by
    have hcandidates : ∀ {q m specifier}, (∃ r ∈ roots, (Disk.ofTree t).Reaches r q) →
        (Disk.ofTree t).read q = some m → specifier ∈ m.dependencies →
          Specifier.isRelative specifier = true →
            ∀ c ∈ Specifier.candidates (Specifier.target m.path specifier), c.place ∉ places :=
      fun hreach hm => hkeeps _
        ((hlawful.mem_modules_iff fun r hr => (hroots r hr).1).2 ⟨_, hreach, hm⟩) _
    refine ⟨fun ⟨hq, hnot, _⟩ => h.isFile_eq ht hq.resolved hnot,
      fun ⟨hq, hnot, _⟩ => (h.agreeBut ht).read_eq hq hnot, fun ⟨_, _, hreach⟩ hm => ?_,
      fun {q r} ⟨_, _, root, hroot, hreach⟩ himp => ?_⟩
    · refine List.filterMap_congr fun specifier hs => Specifier.resolve_congr fun hrelative c hc => ?_
      exact h.isFile_eq ht
        (Specifier.resolved_of_mem_candidates (Specifier.resolved_target _ _) hc)
        (hcandidates hreach hm hs hrelative c hc)
    · obtain ⟨m, hm, hin⟩ := id himp
      obtain ⟨specifier, hs, hresolve⟩ := List.mem_filterMap.1 hin
      obtain ⟨hrelative, hc⟩ := Specifier.mem_candidates_of_resolve hresolve
      exact ⟨(hlawful.full himp).2, hcandidates ⟨root, hroot, hreach⟩ hm hs hrelative r hc, root,
        hroot, hreach.tail himp⟩
  exact halike.load_eq fun r hr => ⟨(hroots r hr).1, (hroots r hr).1, (hroots r hr).2, r, hr, .refl⟩

end FileTree

end IpcWiring
