import IpcWiring.Project
import IpcWiring.Proofs.Files.Scanning
import IpcWiring.Proofs.Files.Writing

/-!
# Valid projects

What `Project.ofConfig` promises of the project that it gives: all its directories are resolved, and
no two artifacts go to the same file (`Project.Valid`, `Project.valid_of_ofConfig`). With an
absolute base and no directory above the root (`Project.climbs`), every directory leads down from
the root, and the files that are generated stand at distinct places (`Project.Grounded`).
-/

namespace IpcWiring

namespace Path

/-! ## Absolute paths -/

/-- Normalizing never drops the root. -/
theorem root_mem_normalComponents {cs : List Component} (h : Component.root ∈ cs) :
    Component.root ∈ normalComponents cs := by
  have hstep : ∀ (kept : List Component) (c : Component), Component.root ∈ kept →
      Component.root ∈ normalizeStep kept c := by
    intro kept c hroot
    cases c with
    | here => exact hroot
    | root | name => exact List.mem_cons_of_mem _ hroot
    | up =>
      match kept with
      | .root :: kept => exact List.mem_cons_of_mem _ hroot
      | .here :: kept | .up :: kept | .name s :: kept =>
        exact (List.mem_cons.1 hroot).resolve_left nofun
  have hfold : ∀ (cs kept : List Component), Component.root ∈ kept ∨ Component.root ∈ cs →
      Component.root ∈ cs.foldl normalizeStep kept := by
    intro cs
    induction cs with
    | nil => exact fun kept h => h.resolve_right nofun
    | cons c cs ih =>
      intro kept h
      refine ih _ ?_
      rcases h with h | h
      · exact .inl (hstep kept c h)
      · rcases List.mem_cons.1 h with rfl | h
        exacts [.inl List.mem_cons_self, .inr h]
  rw [normalComponents, List.mem_reverse]
  exact hfold cs [] (.inr h)

/-- A path seen from an absolute one is absolute. -/
theorem isAbsolute_join {base : Path} (h : base.isAbsolute = true) (p : Path) :
    (base.join p).isAbsolute = true := by
  have happend : ∀ s : String, (Path.mk (base.text ++ s)).isAbsolute = true := fun s => by
    rw [isAbsolute, beq_iff_eq] at h ⊢
    rw [String.toList_append, List.head?_append, h]
    rfl
  rw [join]
  split
  · assumption
  · split
    · exact happend _
    · rw [String.append_assoc]; exact happend _

end Path

namespace Project

/-! ## What is promised of a project -/

/-- All directories are resolved, those for generated events are there if that for events is, and no
two artifacts go to the same file. -/
structure Valid (p : Project) : Prop where
  sourceDir : p.sourceDir.Resolved
  eventDir : ∀ d, p.eventDir? = some d → d.Resolved
  eventDirs : p.emit.eventDirs?.isSome = p.eventDir?.isSome
  dirs : ∀ a d, Emit.Artifact.dir? p.emit a = some d → d.Resolved
  distinct : (artifactPaths p.emit).Pairwise fun x y => x.2.components ≠ y.2.components

/-- The directories that are read or written. -/
def directories (p : Project) : List Path :=
  p.sourceDir :: p.eventDir?.toList ++ artifacts.filterMap (·.dir? p.emit)

/-- The directories are those of functions, of events and of artifacts. -/
theorem mem_directories {p : Project} {d : Path} : d ∈ p.directories ↔ d = p.sourceDir ∨
    p.eventDir? = some d ∨ ∃ a, Emit.Artifact.dir? p.emit a = some d := by
  have hall : ∀ a : Emit.Artifact, a ∈ artifacts := fun a => by cases a <;> decide
  simp [directories, hall]

/-- Some directory lies above the root. -/
def climbs (p : Project) : Bool := p.directories.any (·.components.contains .up)

/-- Paths that were found distinct are distinct, also from those before. -/
theorem pairwise_of_checkDistinct : ∀ {seen rest : List (Emit.Artifact × Path)},
    checkDistinct seen rest = .ok () →
      rest.Pairwise (fun x y => x.2.components ≠ y.2.components) ∧
        ∀ x ∈ seen, ∀ y ∈ rest, x.2.components ≠ y.2.components
  | _, [], _ => ⟨.nil, nofun⟩
  | seen, (a, path) :: rest, h => by
    rw [checkDistinct] at h
    split at h
    · cases h
    · next hnone =>
      obtain ⟨hrest, hseen⟩ := pairwise_of_checkDistinct h
      have hfirst : ∀ x ∈ seen, x.2.components ≠ path.components := fun x hx => by
        have hx := List.find?_eq_none.1 hnone x hx
        rwa [Path.beq_iff] at hx
      refine ⟨List.pairwise_cons.2 ⟨fun y hy => hseen (a, path) (by simp) y hy, hrest⟩,
        fun x hx y hy => ?_⟩
      rcases List.mem_cons.1 hy with rfl | hy
      exacts [hfirst x hx, hseen x (by simp [hx]) y hy]

/-- A step that came well, and what follows from it. -/
theorem bind_eq_ok_iff {ε α β : Type} {x : Except ε α} {f : α → Except ε β} {b : β} :
    (x >>= f) = .ok b ↔ ∃ a, x = .ok a ∧ f a = .ok b := by
  cases x <;> simp [bind, Except.bind]

/-- The directories for events are resolved from the base. -/
theorem eventDirs?_eq_some {base preload main renderer : Path} {events : Config.Events}
    {dirs : Emit.EventDirs} (h : eventDirs? base events
      ⟨resolve base preload, resolve base main, resolve base renderer⟩ = some dirs) :
    (∃ e, dirs.sender = resolve base e) ∧ (∃ e, dirs.preload = resolve base e) ∧
      ∃ e, dirs.renderer = resolve base e := by
  obtain ⟨_, -, rfl⟩ := Option.map_eq_some_iff.1 h
  have hor : ∀ (dir? : Option Path) (d : Path),
      ∃ e, (dir?.map (resolve base)).getD (resolve base d) = resolve base e := fun dir? d => by
    cases dir? with
    | none => exact ⟨d, by rw [Option.map_none, Option.getD_none]⟩
    | some e => exact ⟨e, by rw [Option.map_some, Option.getD_some]⟩
  dsimp only
  exact ⟨hor _ _, hor _ _, hor _ _⟩

/-- The directory of an artifact is one of those for functions or one of those for events. -/
theorem dir?_eq_some {P : Path → Prop} {o : Emit.Options}
    (h : P o.dirs.main ∧ P o.dirs.preload ∧ P o.dirs.renderer ∧
      ∀ dirs, o.eventDirs? = some dirs → P dirs.sender ∧ P dirs.preload ∧ P dirs.renderer)
    {a : Emit.Artifact} {d : Path} (hd : a.dir? o = some d) : P d := by
  obtain ⟨hmain, hpreload, hrenderer, hevents⟩ := h
  cases a with
  | bridge => exact Option.some.inj hd ▸ hpreload
  | handlers | registration => exact Option.some.inj hd ▸ hmain
  | service => exact Option.some.inj hd ▸ hrenderer
  | eventSender =>
    obtain ⟨dirs, hdirs, rfl⟩ := Option.map_eq_some_iff.1 hd
    exact (hevents dirs hdirs).1
  | preloadEvents =>
    obtain ⟨dirs, hdirs, rfl⟩ := Option.map_eq_some_iff.1 hd
    exact (hevents dirs hdirs).2.1
  | rendererEvents =>
    obtain ⟨dirs, hdirs, rfl⟩ := Option.map_eq_some_iff.1 hd
    exact (hevents dirs hdirs).2.2

/-- The paths of a project are resolved from the base, and its artifacts were found distinct. -/
theorem ofConfig_eq_ok {base : Path} {c : Config} {p : Project} (h : ofConfig base c = .ok p) :
    (∀ d ∈ p.directories, ∃ e, d = resolve base e) ∧
      p.emit.eventDirs?.isSome = p.eventDir?.isSome ∧
        checkDistinct [] (artifactPaths p.emit) = .ok () := by
  rw [ofConfig] at h
  obtain ⟨sourceDir, -, h⟩ := bind_eq_ok_iff.1 h
  obtain ⟨contextPath, -, h⟩ := bind_eq_ok_iff.1 h
  obtain ⟨_, -, h⟩ := bind_eq_ok_iff.1 h
  obtain ⟨_, -, h⟩ := bind_eq_ok_iff.1 h
  obtain ⟨filter?, -, h⟩ := bind_eq_ok_iff.1 h
  obtain ⟨handler?, -, h⟩ := bind_eq_ok_iff.1 h
  obtain ⟨_, hdistinct, h⟩ := bind_eq_ok_iff.1 h
  obtain rfl := Except.ok.inj h
  dsimp only
  refine ⟨fun d hd => ?_, by rw [eventDirs?, Option.isSome_map, Option.isSome_map], hdistinct⟩
  simp only [mem_directories] at hd
  rcases hd with rfl | hd | ⟨a, ha⟩
  · exact ⟨sourceDir, rfl⟩
  · obtain ⟨e, -, rfl⟩ := Option.map_eq_some_iff.1 hd
    exact ⟨e, rfl⟩
  · refine dir?_eq_some (P := fun d => ∃ e, d = resolve base e) ?_ ha
    dsimp only
    exact ⟨⟨_, rfl⟩, ⟨_, rfl⟩, ⟨_, rfl⟩, fun _ => eventDirs?_eq_some⟩

/-- A project that comes from a configuration is valid. -/
theorem valid_of_ofConfig {base : Path} {c : Config} {p : Project} (h : ofConfig base c = .ok p) :
    p.Valid := by
  obtain ⟨hdirs, hevents, hdistinct⟩ := ofConfig_eq_ok h
  have hresolved : ∀ d ∈ p.directories, d.Resolved := fun d hd => by
    obtain ⟨e, rfl⟩ := hdirs d hd
    exact Path.resolved_normalize _
  exact ⟨hresolved _ (mem_directories.2 (.inl rfl)),
    fun d hd => hresolved d (mem_directories.2 (.inr (.inl hd))), hevents,
    fun a d hd => hresolved d (mem_directories.2 (.inr (.inr ⟨a, hd⟩))),
    (pairwise_of_checkDistinct hdistinct).1⟩

/-! ## Projects below the root -/

/-- All directories of a project with an absolute base have full paths. -/
theorem full_of_ofConfig {base : Path} {c : Config} {p : Project} (h : ofConfig base c = .ok p)
    (hbase : base.isAbsolute = true) : ∀ d ∈ p.directories, d.Full := fun d hd => by
  obtain ⟨e, rfl⟩ := (ofConfig_eq_ok h).1 d hd
  refine ⟨Path.resolved_normalize _, ?_⟩
  rw [resolve, Path.components_normalize]
  exact Path.root_mem_normalComponents (Path.root_mem_components (Path.isAbsolute_join hbase e))

/-- All directories lead down from the root, and no two artifacts go to the same file. -/
structure Grounded (p : Project) : Prop extends Valid p where
  rooted : ∀ d ∈ p.directories, d.Rooted

/-- A project whose base is absolute and that does not climb above the root is grounded. -/
theorem grounded_of_ofConfig {base : Path} {c : Config} {p : Project}
    (h : ofConfig base c = .ok p) (hbase : base.isAbsolute = true) (hclimbs : p.climbs = false) :
    p.Grounded := by
  refine ⟨valid_of_ofConfig h, fun d hd => ?_⟩
  obtain ⟨hresolved, habsolute⟩ := full_of_ofConfig h hbase d hd
  refine hresolved.rooted habsolute fun hup => ?_
  simp only [climbs, List.any_eq_false] at hclimbs
  exact hclimbs d hd (List.contains_iff_mem.2 hup)

/-! ## Generated files -/

/-- The name of an artifact's file is a name of an entry. -/
theorem isEntryName_fileName (a : Emit.Artifact) : IsEntryName a.fileName := by
  cases a <;> decide

/-- The files that are generated are artifacts with a directory. -/
theorem mem_generate {p : Project} {w : WorkingSet} {f : Emit.GeneratedFile}
    (h : f ∈ Emit.generate p.emit w) :
    ∃ dir, Emit.Artifact.dir? p.emit f.artifact = some dir ∧ f.path = f.artifact.fileIn dir := by
  obtain ⟨a, -, ha⟩ := List.mem_filterMap.1 h
  obtain ⟨dir, hdir, rfl⟩ := Option.map_eq_some_iff.1 ha
  exact ⟨dir, hdir, rfl⟩

/-- An artifact with a directory is generated. -/
theorem exists_generate {p : Project} {w : WorkingSet} {a : Emit.Artifact} {dir : Path}
    (ha : a ∈ Emit.artifactsOf w) (hdir : Emit.Artifact.dir? p.emit a = some dir) :
    ∃ f ∈ Emit.generate p.emit w, f.path = a.fileIn dir :=
  ⟨_, List.mem_filterMap.2 ⟨a, ha, Option.map_eq_some_iff.2 ⟨dir, hdir, rfl⟩⟩, rfl⟩

/-- Some file is always generated. -/
theorem generate_ne_nil (p : Project) (w : WorkingSet) : Emit.generate p.emit w ≠ [] := by
  have hbridge : Emit.Artifact.bridge ∈ Emit.artifactsOf w :=
    List.mem_append_left _ List.mem_cons_self
  obtain ⟨f, hf, -⟩ := exists_generate (p := p) hbridge rfl
  exact List.ne_nil_of_mem hf

/-- A generated file has a resolved path in the directory of its artifact. -/
theorem Valid.namesEntry {p : Project} (hp : p.Valid) {w : WorkingSet} {f : Emit.GeneratedFile}
    (h : f ∈ Emit.generate p.emit w) : FileTree.NamesEntry f.path := by
  obtain ⟨dir, hdir, hpath⟩ := mem_generate h
  have hres := hp.dirs _ _ hdir
  have hname := isEntryName_fileName f.artifact
  rw [hpath]
  refine ⟨hres.join hname, ?_⟩
  rw [Path.place, Emit.Artifact.fileIn, hres.components_join hname]
  simp [Component.name?]

/-- A generated file leads down from the root. -/
theorem Grounded.rooted_generate {p : Project} (hp : p.Grounded) {w : WorkingSet}
    {f : Emit.GeneratedFile} (h : f ∈ Emit.generate p.emit w) :
    f.path.Rooted ∧ f.path.place ≠ [] := by
  obtain ⟨dir, hdir, hpath⟩ := mem_generate h
  have hin : dir ∈ p.directories := mem_directories.2 (.inr (.inr ⟨f.artifact, hdir⟩))
  obtain ⟨hrooted, hplace⟩ := (hp.rooted dir hin).join (isEntryName_fileName f.artifact)
  rw [hpath]
  exact ⟨hrooted, by rw [Emit.Artifact.fileIn, hplace]; simp⟩

/-- No two generated files have the same path. -/
theorem Valid.pairwise_generate {p : Project} (hp : p.Valid) (w : WorkingSet) :
    (Emit.generate p.emit w).Pairwise fun f g => f.path.components ≠ g.path.components := by
  have hsub : (Emit.artifactsOf w).Sublist artifacts := by
    rw [Emit.artifactsOf, artifacts]
    split
    · exact List.Sublist.refl _
    · exact List.Sublist.append_left (List.nil_sublist _) _
  have hall := hp.distinct
  rw [artifactPaths, List.pairwise_filterMap] at hall
  rw [Emit.generate, List.pairwise_filterMap]
  refine (hall.sublist hsub).imp fun {a b} hab f hf g hg => ?_
  obtain ⟨d, hd, rfl⟩ := Option.map_eq_some_iff.1 hf
  obtain ⟨e, he, rfl⟩ := Option.map_eq_some_iff.1 hg
  exact hab (a, a.fileIn d) (by rw [Emit.Artifact.path?, hd]; rfl)
    (b, b.fileIn e) (by rw [Emit.Artifact.path?, he]; rfl)

/-- No two generated files stand at the same place. -/
theorem Grounded.nodup_places {p : Project} (hp : p.Grounded) (w : WorkingSet) :
    ((Emit.generate p.emit w).map (·.path.place)).Nodup := by
  refine List.pairwise_map.2 ((hp.pairwise_generate w).imp_of_mem fun {f g} hf hg hne he => ?_)
  exact hne (by rw [(hp.rooted_generate hf).1.ext (hp.rooted_generate hg).1 he])

/-! ## Places of artifacts -/

/-- The places that artifacts go to. -/
def artifactPlaces (p : Project) : List Place := (artifactPaths p.emit).map (·.2.place)

/-- An artifact goes to its file in its directory. -/
theorem mem_artifactPlaces {p : Project} {place : Place} : place ∈ p.artifactPlaces ↔
    ∃ a dir, Emit.Artifact.dir? p.emit a = some dir ∧ (a.fileIn dir).place = place := by
  have hall : ∀ a : Emit.Artifact, a ∈ artifacts := fun a => by cases a <;> decide
  simp [artifactPlaces, artifactPaths, Emit.Artifact.path?, hall]

/-- Some artifact has a place. -/
theorem artifactPlaces_ne_nil (p : Project) : ∃ place, place ∈ p.artifactPlaces :=
  ⟨_, mem_artifactPlaces.2 ⟨.bridge, _, rfl, rfl⟩⟩

/-- A generated file goes to the place of its artifact. -/
theorem place_mem_artifactPlaces {p : Project} {w : WorkingSet} {f : Emit.GeneratedFile}
    (h : f ∈ Emit.generate p.emit w) : f.path.place ∈ p.artifactPlaces := by
  obtain ⟨dir, hdir, hpath⟩ := mem_generate h
  exact mem_artifactPlaces.2 ⟨f.artifact, dir, hdir, by rw [hpath]⟩

/-- All artifacts are generated if there are events, or no directory for them. -/
theorem exists_generate_of_mem_artifactPlaces {p : Project} (hp : p.Valid) {w : WorkingSet}
    (hw : w.events?.isSome = p.eventDir?.isSome) {place : Place} (h : place ∈ p.artifactPlaces) :
    ∃ f ∈ Emit.generate p.emit w, f.path.place = place := by
  obtain ⟨a, dir, hdir, rfl⟩ := mem_artifactPlaces.1 h
  have hin : a ∈ Emit.artifactsOf w := by
    have hevents : a ∈ Emit.Artifact.ofEvents → w.events?.isSome = true := fun ha => by
      rw [hw, ← hp.eventDirs]
      simp only [Emit.Artifact.ofEvents, List.mem_cons, List.not_mem_nil, or_false] at ha
      rcases ha with rfl | rfl | rfl <;>
        exact Option.isSome_map.symm.trans (Option.isSome_of_eq_some hdir)
    have hall : a ∈ Emit.Artifact.ofFunctions ∨ a ∈ Emit.Artifact.ofEvents := by
      cases a <;> decide
    rw [Emit.artifactsOf, List.mem_append]
    refine hall.imp_right fun ha => ?_
    rw [if_pos (hevents ha)]
    exact ha
  obtain ⟨f, hf, hpath⟩ := exists_generate hin hdir
  exact ⟨f, hf, by rw [hpath]⟩

/-- Nothing that is known is dropped when new paths are put behind it. -/
theorem subset_foldl_addNew : ∀ known more : List Path, known ⊆ more.foldl addNew known
  | _, [] => fun _ h => h
  | known, d :: more => fun e he => by
    have hone : e ∈ addNew known d := by
      rw [addNew]
      split
      exacts [he, List.mem_append_left _ he]
    exact subset_foldl_addNew _ more hone

/-- Every path is known when it was put behind those that are known, perhaps by another spelling. -/
theorem exists_mem_foldl_addNew {d : Path} : ∀ known more : List Path, d ∈ more →
    ∃ e ∈ more.foldl addNew known, e.components = d.components
  | known, d' :: more, h => by
    rcases List.mem_cons.1 h with rfl | h
    · have hone : ∃ e ∈ addNew known d, e.components = d.components := by
        rw [addNew]
        split
        · next hold =>
          obtain ⟨e, he, heq⟩ := List.contains_iff_exists_mem_beq.1 hold
          exact ⟨e, he, (Path.beq_iff.1 heq).symm⟩
        · exact ⟨d, List.mem_append_right _ List.mem_cons_self, rfl⟩
      obtain ⟨e, he, heq⟩ := hone
      exact ⟨e, subset_foldl_addNew _ more he, heq⟩
    · exact exists_mem_foldl_addNew _ more h

/-- An artifact's file lies in a directory that scanners leave out. -/
theorem Grounded.exists_outputDir {p : Project} (hp : p.Grounded) {q : Path} (hq : q.Rooted)
    (h : q.place ∈ p.artifactPlaces) : ∃ dir ∈ p.outputDirs, dir.isWithin q = true := by
  obtain ⟨a, dir, hdir, hplace⟩ := mem_artifactPlaces.1 h
  have hrooted := hp.rooted dir (mem_directories.2 (.inr (.inr ⟨a, hdir⟩)))
  have hall : a ∈ artifacts := by cases a <;> decide
  obtain ⟨e, he, heq⟩ : ∃ e ∈ p.outputDirs, e.components = dir.components :=
    exists_mem_foldl_addNew _ _ (List.mem_filterMap.2 ⟨a, hall, hdir⟩)
  refine ⟨e, he, ?_⟩
  rw [Path.isWithin_congr heq rfl, hrooted.isWithin_iff hq, ← hplace, Emit.Artifact.fileIn,
    (hrooted.join (isEntryName_fileName a)).2]
  exact List.prefix_append _ _

end Project

end IpcWiring
