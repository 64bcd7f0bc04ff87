import IpcWiring.Proofs.Build.Plan
import IpcWiring.Proofs.Files.Progress

/-!
# What builds and changes write

Builds and changes write only where artifacts go, however they end (`Project.Valid.writtenAt_build`,
`Project.Valid.writtenAt_change`). After a build or a change that ended well the artifacts are
current (`Project.Current`): each has the text that is generated from the working set that is
retained. They do end well if nothing is in the way of the artifacts
(`Project.Grounded.exists_build`, `Project.Grounded.well_handleAll`). A small project
(`Project.Small`) serves where something is to be seen on a project that there is.
-/

namespace IpcWiring

namespace Project

variable {p : Project} {w : Writer} {x : World} {t : FileTree} {c : Change}

/-! ## Where artifacts go -/

/-- The files that are written for a working set have resolved paths. -/
theorem Valid.namesEntry_outputs (hp : p.Valid) (set : WorkingSet) :
    ∀ o ∈ p.outputs set, FileTree.NamesEntry o.1 := by
  intro o ho
  obtain ⟨f, hf, rfl⟩ := List.mem_map.1 ho
  exact hp.namesEntry hf

/-- The files that are written for a working set are artifacts. -/
theorem places_outputs_subset (p : Project) (set : WorkingSet) :
    (p.outputs set).map (·.1.place) ⊆ p.artifactPlaces := by
  intro place h
  obtain ⟨o, ho, rfl⟩ := List.mem_map.1 h
  obtain ⟨f, hf, rfl⟩ := List.mem_map.1 ho
  exact place_mem_artifactPlaces hf

/-- Writing the files for a working set is writing where artifacts go. -/
theorem Valid.writtenAt_outputs (hp : p.Valid) (h : t.WellFormed) (w : Writer) (set : WorkingSet) :
    FileTree.WrittenAt p.artifactPlaces t (w.writeAll t (p.outputs set)).2 :=
  (Writer.writtenAt_writeAll h (hp.namesEntry_outputs set)).mono (places_outputs_subset p set)

/-- The files of a plan are none, or those for its working set. -/
theorem outputs_of_plan (hp : p.Valid) (h : t.WellFormed) {plan : Plan}
    (hplan : p.plan t = .ok plan) :
    plan.outputs = [] ∨ plan.outputs = p.outputs plan.workingSet := by
  obtain ⟨paths, -, ⟨-, rfl⟩ | ⟨-, -, hfiles⟩⟩ := plan_eq_ok hp h hplan
  exacts [.inl rfl, .inr (outputs_eq hfiles)]

/-- Writing the files of a plan is writing where artifacts go. -/
theorem Valid.writtenAt_plan (hp : p.Valid) (h : t.WellFormed) (w : Writer) {plan : Plan}
    (hplan : p.plan t = .ok plan) :
    FileTree.WrittenAt p.artifactPlaces t (w.writeAll t plan.outputs).2 := by
  rcases outputs_of_plan hp h hplan with hnil | houtputs
  · rw [hnil]
    exact h.writtenAt _
  · rw [houtputs]
    exact hp.writtenAt_outputs h w plan.workingSet

/-- A build only writes where artifacts go, however it ends. -/
theorem Valid.writtenAt_build (hp : p.Valid) (h : x.tree.WellFormed) (w : Writer) :
    FileTree.WrittenAt p.artifactPlaces x.tree (p.build w x).2.tree := by
  have hbuilt := p.built w x
  generalize (p.build w x).1 = result, (p.build w x).2 = y at hbuilt
  cases hbuilt with
  | busy | unplanned => exact h.writtenAt _
  | failed _ hplan | done _ hplan => exact hp.writtenAt_plan h w hplan

/-- A change only writes where artifacts go, however it ends. -/
theorem Valid.writtenAt_change (hp : p.Valid) (h : x.tree.WellFormed) (w : Writer) (c : Change) :
    FileTree.WrittenAt p.artifactPlaces x.tree (p.handleChange w x c).2.tree := by
  have hhandled := p.handled w x c
  generalize (p.handleChange w x c).1 = outcome, (p.handleChange w x c).2 = y at hhandled
  cases hhandled with
  | dropped | ignored => exact h.writtenAt _
  | failed | done => exact hp.writtenAt_outputs h w _

/-! ## Current artifacts -/

/-- Every file that is generated from the retained working set has its text. -/
def Current (p : Project) (x : World) : Prop :=
  ∀ f ∈ Emit.generate p.emit x.session.retained, x.tree.read f.path = .ok f.text.toUTF8

/-- Files that were all written for a working set have their texts. -/
theorem Grounded.read_of_writeAll (hp : p.Grounded) (h : t.WellFormed) (hw : w.dryRun = false)
    {set : WorkingSet} {writes : List WriteResult}
    (hwrite : (w.writeAll t (p.outputs set)).1 = .ok writes) :
    ∀ f ∈ Emit.generate p.emit set,
      (w.writeAll t (p.outputs set)).2.read f.path = .ok f.text.toUTF8 := by
  intro f hf
  obtain ⟨hrooted, hne⟩ := hp.rooted_generate hf
  have hnodup : ((p.outputs set).map (·.1.place)).Nodup := by
    rw [outputs, List.map_map]
    exact hp.nodup_places set
  have hcontent := Writer.contentAt?_of_writeAll hw h (hp.namesEntry_outputs set) hnodup hwrite
    (f.path, f.text) (List.mem_map.2 ⟨f, hf, rfl⟩)
  have hwf := (hp.writtenAt_outputs h w set).wellFormed
  exact (hwf.read_eq_ok_iff hrooted.resolved.components).2
    ⟨FileTree.endsAsDirectory_of_resolved hrooted.resolved hne, hcontent⟩

/-- Where the artifacts are current every artifact is there, if there are events or no directory for
them. -/
theorem Grounded.contentAt?_of_current (hp : p.Grounded) (h : x.tree.WellFormed)
    (hcurrent : p.Current x) (hevents : x.session.retained.events?.isSome = p.eventDir?.isSome)
    {place : Place} (hplace : place ∈ p.artifactPlaces) :
    (x.tree.contentAt? place).isSome = true := by
  obtain ⟨f, hf, rfl⟩ := exists_generate_of_mem_artifactPlaces hp.toValid hevents hplace
  have hread := hcurrent f hf
  rw [h.read_eq_ok_iff (hp.rooted_generate hf).1.resolved.components] at hread
  rw [hread.2]
  rfl

/-- Where the artifacts are current the directories above them are there, and so a change of one
means nothing. -/
theorem Grounded.react?_of_current (hp : p.Grounded) (h : x.tree.WellFormed)
    (hcurrent : p.Current x) (hevents : x.session.retained.events?.isSome = p.eventDir?.isSome)
    (hc : c.path.normalize.Rooted) {names : List String} (hne : names ≠ [])
    (hplace : c.path.normalize.place ++ names ∈ p.artifactPlaces) : p.react? x.tree c = none := by
  have hcontent := hp.contentAt?_of_current h hcurrent hevents hplace
  have hdir := h.isDirectoryAt_of_append hne (FileTree.isSome_entryAt?_iff.2 (.inr hcontent))
  refine react?_of_isDirectory ((h.isDirectory_iff hc.resolved.components).2 ⟨?_, hdir⟩)
  rw [hc.components_eq]
  exact List.cons_ne_nil _ _

/-- After a build that found functions and ended well the working set of its plan is retained, and
the artifacts are current. -/
theorem Grounded.planned_of_build (hp : p.Grounded) (h : x.tree.WellFormed)
    (hw : w.dryRun = false) {out : BuildOutput} (hbuild : (p.build w x).1 = .ok out)
    {paths : List Path} (hscan : p.apiScanner.scan x.tree = .ok paths) (hne : paths ≠ []) :
    p.Planned x.tree paths (p.build w x).2.session.retained ∧ p.Current (p.build w x).2 := by
  have hbuilt := p.built w x
  rw [hbuild] at hbuilt
  generalize (p.build w x).2 = y at hbuilt ⊢
  cases hbuilt with
  | done _ hplan hwrite =>
    obtain ⟨paths', hscan', ⟨hnil, -⟩ | ⟨-, hplanned, hfiles⟩⟩ := plan_eq_ok hp.toValid h hplan
    · obtain rfl := Except.ok.inj (hscan.symm.trans hscan')
      exact absurd hnil hne
    · obtain rfl := Except.ok.inj (hscan.symm.trans hscan')
      rw [outputs_eq hfiles] at hwrite ⊢
      exact ⟨hplanned, hp.read_of_writeAll h hw hwrite⟩

/-- After a change on whose account something was removed or updated the artifacts are current. -/
theorem Grounded.current_of_change (hp : p.Grounded) (h : x.tree.WellFormed)
    (hw : w.dryRun = false) {r : Reaction} {n : Nat}
    (hchange : (p.handleChange w x c).1 = outcomeOf n r) :
    p.Current (p.handleChange w x c).2 := by
  have hhandled := p.handled w x c
  rw [hchange] at hhandled
  generalize ho : outcomeOf n r = outcome, (p.handleChange w x c).2 = y at hhandled ⊢
  cases hhandled with
  | dropped | ignored | failed => cases r <;> cases ho
  | done hleads hwrite => exact hp.read_of_writeAll h hw hwrite

/-- Changes that end well keep the artifacts current. -/
theorem Grounded.current_of_handleAll (hp : p.Grounded) (hw : w.dryRun = false) :
    ∀ (cs : List Change) {x : World}, x.tree.WellFormed → p.Current x →
      AllWell (p.handleAll w x cs).1 → p.Current (p.handleAll w x cs).2
  | [], _, _, hcurrent, _ => hcurrent
  | c :: cs, x, h, hcurrent, hwell => by
    have hfirst : p.Current (p.handleChange w x c).2 := by
      have hhandled := p.handled w x c
      replace hwell := hwell (p.handleChange w x c).1 List.mem_cons_self
      generalize (p.handleChange w x c).1 = outcome, (p.handleChange w x c).2 = y
        at hhandled hwell ⊢
      cases hhandled with
      | dropped | ignored => exact hcurrent
      | failed => exact absurd rfl (hwell.2 _)
      | done _ hwrite => exact hp.read_of_writeAll h hw hwrite
    exact hp.current_of_handleAll hw cs (hp.writtenAt_change h w c).wellFormed hfirst
      fun o ho => hwell o (List.mem_cons_of_mem _ ho)

/-! ## Builds and changes that end well -/

/-- The standard writer writes the files for a working set if nothing is in the way. -/
theorem Grounded.exists_writeAll (hp : p.Grounded) (h : t.WellFormed)
    (hfree : t.IsFree p.artifactPlaces) (set : WorkingSet) :
    ∃ writes, (Writer.standard.writeAll t (p.outputs set)).1 = .ok writes := by
  refine Writer.exists_writeAll h (fun o ho => ?_) (hfree.mono (places_outputs_subset p set))
  obtain ⟨f, hf, rfl⟩ := List.mem_map.1 ho
  exact hp.rooted_generate hf

/-- A build ends well if it finds functions and nothing is in the way. -/
theorem Grounded.exists_build (hp : p.Grounded) (h : x.tree.WellFormed)
    (hunlocked : x.session.locked = false) (hfree : x.tree.IsFree p.artifactPlaces)
    {paths : List Path} (hscan : p.apiScanner.scan x.tree = .ok paths) (hne : paths ≠ []) :
    ∃ out, (p.build .standard x).1 = .ok out ∧
      p.Planned x.tree paths (p.build .standard x).2.session.retained ∧
        (p.build .standard x).2.session.locked = false := by
  obtain ⟨plan, hplan, hplanned, hfiles⟩ := exists_plan hp.toValid h hscan hne
  obtain ⟨writes, hwrites⟩ := hp.exists_writeAll h hfree plan.workingSet
  have hbuilt := p.built .standard x
  generalize (p.build .standard x).1 = result, (p.build .standard x).2 = y at hbuilt ⊢
  have hsame : ∀ {plan' : Plan}, p.plan x.tree = .ok plan' → plan' = plan := fun hplan' =>
    Except.ok.inj (hplan'.symm.trans hplan)
  cases hbuilt with
  | busy hlocked => rw [hunlocked] at hlocked; cases hlocked
  | unplanned _ hnone => rw [hplan] at hnone; cases hnone
  | failed _ hplan' hwrite =>
    rw [hsame hplan', outputs_eq hfiles, hwrites] at hwrite
    cases hwrite
  | done _ hplan' hwrite =>
    obtain rfl := hsame hplan'
    exact ⟨_, rfl, hplanned, rfl⟩

/-- A change ends well if nobody holds the lock and nothing is in the way. -/
theorem Grounded.well_change (hp : p.Grounded) (h : x.tree.WellFormed)
    (hunlocked : x.session.locked = false) (hfree : x.tree.IsFree p.artifactPlaces) (c : Change) :
    AllWell [(p.handleChange .standard x c).1] ∧
      (p.handleChange .standard x c).2.session.locked = false := by
  have hhandled := p.handled .standard x c
  generalize (p.handleChange .standard x c).1 = outcome, (p.handleChange .standard x c).2 = y
    at hhandled ⊢
  cases hhandled with
  | dropped hlocked => rw [hunlocked] at hlocked; cases hlocked
  | ignored => exact ⟨by simp [AllWell], hunlocked⟩
  | @failed r set e _ hwrite =>
    obtain ⟨writes, hwrites⟩ := hp.exists_writeAll h hfree set
    rw [hwrites] at hwrite
    cases hwrite
  | @done r => cases r <;> exact ⟨by simp [AllWell, outcomeOf], rfl⟩

/-- Changes end well, one after another, if nobody holds the lock and nothing is in the way. -/
theorem Grounded.well_handleAll (hp : p.Grounded) : ∀ (cs : List Change) {x : World},
    x.tree.WellFormed → x.session.locked = false → x.tree.IsFree p.artifactPlaces →
      AllWell (p.handleAll .standard x cs).1
  | [], _, _, _, _ => nofun
  | c :: cs, x, h, hunlocked, hfree => by
    obtain ⟨hwell, hunlocked'⟩ := hp.well_change h hunlocked hfree c
    have hwritten := hp.writtenAt_change h .standard c
    have hrest := hp.well_handleAll cs hwritten.wellFormed hunlocked' (hfree.of_writtenAt hwritten)
    intro o ho
    rcases List.mem_cons.1 ho with rfl | ho
    exacts [hwell _ List.mem_cons_self, hrest o ho]

/-- A file that is to be read again is, if the change ends well. -/
theorem updated_of_well (hwell : AllWell [(p.handleChange w x c).1]) {q : Path}
    (hreact : p.react? x.tree c = some (.update q)) :
    ∃ n, (p.handleChange w x c).1 = .updated q n := by
  have hhandled := p.handled w x c
  replace hwell := hwell _ List.mem_cons_self
  generalize (p.handleChange w x c).1 = outcome, (p.handleChange w x c).2 = y at hhandled hwell ⊢
  cases hhandled with
  | dropped => exact absurd rfl hwell.1
  | ignored _ hnext => cases hnext _ hreact
  | failed => exact absurd rfl (hwell.2 _)
  | done hleads =>
    obtain rfl := Option.some.inj (hreact.symm.trans hleads.reaction)
    exact ⟨_, rfl⟩

/-! ## A small project -/

/-- A configuration with a directory for functions and one for events, around the main one of those
that artifacts go to. -/
def smallConfig : Config :=
  { Config.default with
    source := ⟨some ⟨"src/api"⟩, [], none⟩
    context := ⟨some ⟨"context.ts"⟩, "Context"⟩
    events := ⟨some ⟨"src/main"⟩, none, none, none⟩ }

/-- The directory of functions. -/
def smallApiDir : Place := ["proj", "src", "api"]

/-- The directory of events. -/
def smallEventDir : Place := ["proj", "src", "main"]

/-- A file for functions. -/
def smallApiFile : Place := smallApiDir ++ ["x.ts"]

/-- A file for events. -/
def smallEventFile : Place := smallEventDir ++ ["a.ts"]

/-- Another file for functions. -/
def smallOtherFile : Place := smallApiDir ++ ["y.ts"]

/-- The files for functions and events. -/
def smallSources : List Place := [smallApiFile, smallEventFile, smallOtherFile]

/-- The file for functions is one of them. -/
theorem smallApiFile_mem : smallApiFile ∈ smallSources := by decide

/-- The file for events is one of them. -/
theorem smallEventFile_mem : smallEventFile ∈ smallSources := by decide

/-- The places that the artifacts go to. -/
def smallArtifacts : List Place :=
  [["proj", "src", "preload", "api.ts"], ["proj", "src", "main", "ipc", "handlers.ts"],
    ["proj", "src", "main", "ipc", "register.ts"], ["proj", "src", "renderer", "ipc", "api.ts"],
    ["proj", "src", "main", "ipc", "events.ts"], ["proj", "src", "preload", "events.ts"],
    ["proj", "src", "renderer", "ipc", "events.ts"]]

/-- A tree of directories and empty files below the source directory. -/
def smallTree (dirs files : List Place) : FileTree :=
  ⟨([["proj"], ["proj", "src"]] ++ dirs).map (·, .directory) ++
    files.map (·, .file ByteArray.empty)⟩

/-- What the project of the configuration is like. -/
structure Small (p : Project) : Prop extends Grounded p where
  artifactPlaces_eq : p.artifactPlaces = smallArtifacts
  apiDir : p.apiScanner.root.place = smallApiDir
  handlers : (Emit.Artifact.handlers.fileIn p.emit.dirs.main).place =
    smallEventDir ++ ["ipc", "handlers.ts"]
  apiFile : p.apiScanner.accepts (FileTree.pathOf smallApiFile) = true
  otherFile : p.apiScanner.accepts (FileTree.pathOf smallOtherFile) = true
  events : ∃ s, p.eventScanner? = some s ∧ s.root.place = smallEventDir ∧
    s.accepts (FileTree.pathOf smallEventFile) = true ∧
      s.isExcluded (FileTree.pathOf smallEventDir) = false

/-- A configuration is valid if its project can be asked for anything. -/
theorem exists_of_any {base : Path} {config : Config} {holds : Project → Bool}
    (h : (ofConfig base config).toOption.any holds = true) :
    ∃ p, ofConfig base config = .ok p ∧ holds p = true := by
  cases hp : ofConfig base config with
  | error e => rw [hp] at h; cases h
  | ok p => rw [hp] at h; exact ⟨p, rfl, h⟩

/-- The configuration is valid and its project does not climb above the root. -/
theorem exists_small : ∃ p, ofConfig ⟨"/proj"⟩ smallConfig = .ok p ∧ p.climbs = false ∧
    p.Small := by
  have hfacts : (ofConfig ⟨"/proj"⟩ smallConfig).toOption.any (fun p =>
      !p.climbs && p.artifactPlaces == smallArtifacts && p.apiScanner.root.place == smallApiDir &&
        (Emit.Artifact.handlers.fileIn p.emit.dirs.main).place ==
          smallEventDir ++ ["ipc", "handlers.ts"] &&
        p.apiScanner.accepts (FileTree.pathOf smallApiFile) &&
        p.apiScanner.accepts (FileTree.pathOf smallOtherFile) &&
        p.eventScanner?.any fun s => s.root.place == smallEventDir &&
          s.accepts (FileTree.pathOf smallEventFile) &&
          !s.isExcluded (FileTree.pathOf smallEventDir)) = true := by
    decide +kernel
  obtain ⟨p, hp, hall⟩ := exists_of_any hfacts
  simp only [Bool.and_eq_true, Bool.not_eq_true', beq_iff_eq] at hall
  obtain ⟨⟨⟨⟨⟨⟨hclimbs, hplaces⟩, hdir⟩, hhandlers⟩, hfile⟩, hother⟩, hevents⟩ := hall
  refine ⟨p, hp, hclimbs, grounded_of_ofConfig hp (by decide) hclimbs, hplaces, hdir, hhandlers,
    hfile, hother, ?_⟩
  cases hs : p.eventScanner? with
  | none => rw [hs] at hevents; cases hevents
  | some s =>
    rw [hs, Option.any_some] at hevents
    simp only [Bool.and_eq_true, Bool.not_eq_true', beq_iff_eq] at hevents
    exact ⟨s, rfl, hevents.1.1, hevents.1.2, hevents.2⟩

/-- The names of the sources are names of entries. -/
theorem rooted_pathOf_small {place : Place} (h : place ∈ smallSources) :
    (FileTree.pathOf place).Rooted ∧ (FileTree.pathOf place).place = place := by
  have hnames : ∀ place ∈ smallSources, ∀ s ∈ place, IsEntryName s := by decide
  exact Path.rooted_pathOf (hnames place h)

/-- A source that is empty has a module, which depends on nothing. -/
theorem exists_module_small (h : t.WellFormed) {place : Place} (hplace : place ∈ smallSources)
    (hc : t.contentAt? place = some ByteArray.empty) :
    ∃ m, (Disk.ofTree t).read (FileTree.pathOf place) = some m ∧ m.dependencies = [] := by
  obtain ⟨hrooted, heq⟩ := rooted_pathOf_small hplace
  have hread : (Disk.ofTree t).read (FileTree.pathOf place) =
      SourceModule.parse? (FileTree.pathOf place) "" := by
    have htext : String.fromUTF8? ByteArray.empty = some "" := by decide +kernel
    rw [h.read_eq hrooted.resolved, heq, hc, Option.bind_some, htext, Option.bind_some]
  have hparses : ∀ place ∈ smallSources, (SourceModule.parse? (FileTree.pathOf place) "").any
      (·.dependencies.isEmpty) = true := by decide +kernel
  obtain ⟨m, hm, hnone⟩ := (Option.any_eq_true _ _).1 (hparses place hplace)
  exact ⟨m, hread.trans hm, List.isEmpty_iff.1 hnone⟩

/-- A file of the small project is empty where it is there: it has a module, which imports nothing.
-/
theorem exists_read_small (h : t.WellFormed) {place : Place} (hplace : place ∈ smallSources)
    (hc : t.contentAt? place = some ByteArray.empty) :
    (FileTree.pathOf place).Rooted ∧ (FileTree.pathOf place).place = place ∧
      ∃ m, (Disk.ofTree t).read (FileTree.pathOf place) = some m ∧
        ∀ q, ¬ (Disk.ofTree t).Imports (FileTree.pathOf place) q := by
  obtain ⟨hrooted, heq⟩ := rooted_pathOf_small hplace
  obtain ⟨m, hm, hnone⟩ := exists_module_small h hplace hc
  refine ⟨hrooted, heq, m, hm, fun q ⟨m', hm', hq⟩ => ?_⟩
  obtain rfl := Option.some.inj (hm.symm.trans hm')
  rw [Program.importedFiles, hnone] at hq
  cases hq

/-- The change that tells of the file for functions. -/
def smallUpdate : Change := ⟨.content, FileTree.pathOf smallApiFile, .api⟩

/-- The file for functions is read again where it is there. -/
theorem Small.react?_apiFile (hp : p.Small) (h : t.WellFormed)
    (hc : t.contentAt? smallApiFile = some ByteArray.empty) :
    p.react? t smallUpdate = some (.update (FileTree.pathOf smallApiFile)) := by
  obtain ⟨hrooted, hplace, -⟩ := exists_read_small h smallApiFile_mem hc
  obtain ⟨hthere, hfile⟩ := h.contains_of_contentAt? hrooted (by rw [hplace, hc]; rfl)
  exact react?_eq_update_iff.2 ⟨hrooted.resolved.normalize_eq.symm, ⟨_, rfl, hp.apiFile⟩, hthere,
    hfile, nofun⟩

/-- The file for events is read again where it is there. -/
theorem Small.react?_eventFile (hp : p.Small) (h : t.WellFormed)
    (hc : t.contentAt? smallEventFile = some ByteArray.empty) :
    p.react? t ⟨.content, FileTree.pathOf smallEventFile, .events⟩ =
      some (.update (FileTree.pathOf smallEventFile)) := by
  obtain ⟨s, hs, -, haccepts, -⟩ := hp.events
  obtain ⟨hrooted, hplace, -⟩ := exists_read_small h smallEventFile_mem hc
  obtain ⟨hthere, hfile⟩ := h.contains_of_contentAt? hrooted (by rw [hplace, hc]; rfl)
  exact react?_eq_update_iff.2 ⟨hrooted.resolved.normalize_eq.symm, ⟨s, hs, haccepts⟩, hthere,
    hfile, nofun⟩

/-- A scan of the small project finds the file for functions where it is there. -/
theorem Small.exists_scan (hp : p.Small) (h : t.WellFormed) (hnone : t.hasIgnoreFiles = false)
    (hc : t.contentAt? smallApiFile = some ByteArray.empty) :
    ∃ paths, p.apiScanner.scan t = .ok paths ∧ paths ≠ [] := by
  have hroot : p.apiScanner.root.Rooted := hp.rooted _ (mem_directories.2 (.inl rfl))
  have hdir : t.isDirectoryAt smallApiFile.dropLast = true :=
    h.isDirectoryAt_dropLast (FileTree.isSome_entryAt?_iff.2 (.inr (by rw [hc]; rfl)))
  obtain ⟨paths, hscan⟩ := Scanner.exists_scan h hroot (by rw [hp.apiDir]; exact hdir)
  obtain ⟨hrooted, hplace, -⟩ := exists_read_small h smallApiFile_mem hc
  have hmem : FileTree.pathOf smallApiFile ∈ paths :=
    (Scanner.mem_scan_iff_accepts h hnone hroot hscan).2
      ⟨hp.apiFile, hrooted, by rw [hplace, hc]; rfl⟩
  exact ⟨paths, hscan, List.ne_nil_of_mem hmem⟩

/-- Nothing is in the way of the artifacts in a tree with these directories and files. -/
theorem Small.isFree (hp : p.Small) {dirs files : List Place}
    (h : (smallTree dirs files).WellFormed)
    (habove : ∀ a ∈ smallArtifacts, ∀ f ∈ (smallTree dirs files).files,
      f.1.isPrefixOf a = true → f.1 = a)
    (hhere : ∀ a ∈ smallArtifacts, (smallTree dirs files).isDirectoryAt a = false) :
    (smallTree dirs files).IsFree p.artifactPlaces := by
  rw [hp.artifactPlaces_eq]
  exact h.isFree habove hhere (by decide +kernel)

end Project

end IpcWiring
