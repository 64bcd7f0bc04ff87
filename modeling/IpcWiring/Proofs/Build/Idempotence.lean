import Mathlib.Data.List.Infix
import IpcWiring.Proofs.Build.Feedback
import IpcWiring.Proofs.Build.Incremental

/-!
# Building again

A plan is made from what the scans find and from the programs that this reaches
(`Project.plan_congr`). The artifacts of a build are none of that (`Project.Undisturbed`) unless
they bring the directory of events or the top of a repository into being, or an import can stand for
one of them. So a build that is done again comes to the same plan and finds all files current
(`Project.build_idempotent`).
-/

namespace IpcWiring.Project

variable {p : Project} {t u : FileTree} {w : Writer} {x y : World} {root : WatchRoot} {s : Scanner}
  {plan : Plan} {out : BuildOutput}

/-! ## Plans on two trees -/

/-- Plans are the same where the scans and the programs of what they find are. -/
theorem plan_congr (hscan : ∀ root s, p.scannerFor? root = some s → s.scan t = s.scan u)
    (hprogram : ∀ root s paths, p.scannerFor? root = some s → s.scan t = .ok paths →
      program t paths = program u paths) : p.plan t = p.plan u := by
  have hevents : p.allEvents? t = p.allEvents? u := by
    cases hs : p.eventScanner? with
    | none => simp only [allEvents?, hs, Option.bind_eq_bind, Option.bind_none]
    | some s =>
      have hevents : p.scannerFor? .events = some s := hs
      simp only [allEvents?, hs, Option.bind_eq_bind, Option.bind_some]
      rw [← hscan .events s hevents]
      cases hfound : s.scan t with
      | ok paths => simp only [extractEvents, hprogram .events s paths hevents hfound]
      | error e =>
        cases e
        rfl
  rw [Project.plan, Project.plan, ← hscan .api _ rfl, hevents]
  cases hfound : p.apiScanner.scan t with
  | error e => simp only [Except.mapError, bind, Except.bind]
  | ok paths =>
    simp only [Except.mapError, bind, Except.bind]
    rw [extractApi, extractApi, hprogram .api _ paths rfl hfound]

/-- The files of a plan by their places. -/
def places (plan : Plan) : List Place := plan.files.map (·.path.place)

/-- The build brings nothing into being that it would have read: neither the directory of events,
nor the top of a repository, in which ignore files count, nor a file that an import can stand for.
-/
structure Undisturbed (p : Project) (plan : Plan) (t u : FileTree) : Prop where
  events : ∀ dir, p.eventDir? = some dir → u.isDirectoryAt dir.place = true →
    t.isDirectoryAt dir.place = true
  repositories : ∀ dir, u.isRepository dir = true → t.isRepository dir = true
  imports : ∀ root s paths, p.scannerFor? root = some s → s.scan t = .ok paths →
    (program t paths).KeepsFrom (places plan)

/-! ## What a build leaves behind -/

/-- The files are written to their places. -/
theorem places_eq (plan : Plan) : places plan = plan.outputs.map (·.1.place) := by
  rw [places, Plan.outputs, List.map_map]
  rfl

/-- The files of a plan are artifacts. -/
theorem places_subset (hp : p.Valid) (h : t.WellFormed) (hplan : p.plan t = .ok plan) :
    places plan ⊆ p.artifactPlaces := by
  rw [places_eq]
  rcases outputs_of_plan hp h hplan with hnil | hall
  · rw [hnil]
    exact List.nil_subset _
  · rw [hall]
    exact places_outputs_subset p _

/-- No artifact is an ignore file. -/
theorem not_isSuffix_of_mem_artifactPlaces (hp : p.Grounded) {place : Place}
    (hplace : place ∈ p.artifactPlaces) : ∀ file ∈ FileTree.ignoreFiles, ¬ file <:+ place := by
  obtain ⟨a, dir, hdir, rfl⟩ := mem_artifactPlaces.1 hplace
  have hrooted := hp.rooted dir (mem_directories.2 (.inr (.inr ⟨a, hdir⟩)))
  have hlast : ∀ file ∈ FileTree.ignoreFiles, file ≠ [] ∧ file.getLast? ≠ some a.fileName := by
    cases a <;> decide
  rintro file hfile ⟨front, hfront⟩
  obtain ⟨hne, hname⟩ := hlast file hfile
  rw [Emit.Artifact.fileIn, (hrooted.join (isEntryName_fileName a)).2] at hfront
  refine hname ?_
  rw [← List.getLast?_append_of_ne_nil front hne, hfront, List.getLast?_concat]

/-- Writing artifacts changes no ignore file. -/
theorem Grounded.rulesAt_eq (hp : p.Grounded) {places : List Place}
    (h : FileTree.WrittenAt places t u) (hsub : places ⊆ p.artifactPlaces) (dir : Place)
    {file : Place} (hfile : file ∈ FileTree.ignoreFiles) :
    t.rulesAt (dir ++ file) = u.rulesAt (dir ++ file) := by
  have hnot : dir ++ file ∉ places := fun hin =>
    not_isSuffix_of_mem_artifactPlaces hp (hsub hin) file hfile (List.suffix_append dir file)
  rw [FileTree.rulesAt, FileTree.rulesAt, h.contentAt?_eq hnot]

/-- A build that ended well planned, wrote all files, and retains the working set. -/
theorem eq_of_build (hbuild : p.build w x = (.ok out, y)) : p.plan x.tree = .ok out.plan ∧
    (w.writeAll x.tree out.plan.outputs).1 = .ok out.writes ∧
      y = ⟨⟨out.plan.workingSet, false⟩, (w.writeAll x.tree out.plan.outputs).2⟩ := by
  have hbuilt := p.built w x
  rw [hbuild] at hbuilt
  cases hbuilt with
  | done _ hplan hwrite => exact ⟨hplan, hwrite, rfl⟩

/-- What a build comes to that finds functions and has nothing in its way. -/
structure BuiltWell (p : Project) (x : World) (paths : List Path) (out : BuildOutput) (y : World) :
    Prop where
  build : p.build .standard x = (.ok out, y)
  planned : p.Planned x.tree paths out.plan.workingSet
  files : out.plan.files = Emit.generate p.emit out.plan.workingSet
  unlocked : y.session.locked = false
  current : p.Current y
  written : FileTree.WrittenAt p.artifactPlaces x.tree y.tree

/-- A build that finds functions and has nothing in its way comes to that. -/
theorem Grounded.exists_builtWell (hp : p.Grounded) (h : x.tree.WellFormed)
    (hunlocked : x.session.locked = false) (hfree : x.tree.IsFree p.artifactPlaces)
    {paths : List Path} (hscan : p.apiScanner.scan x.tree = .ok paths) (hne : paths ≠ []) :
    ∃ out y, p.BuiltWell x paths out y := by
  obtain ⟨out, hout, hplanned, hfreed⟩ := hp.exists_build h hunlocked hfree hscan hne
  have hbuild : p.build .standard x = (.ok out, (p.build .standard x).2) := Prod.ext hout rfl
  obtain ⟨hplan, -, hy⟩ := eq_of_build hbuild
  obtain ⟨found, hfound, ⟨hnil, -⟩ | ⟨-, -, hfiles⟩⟩ := plan_eq_ok hp.toValid h hplan
  · obtain rfl := Except.ok.inj (hscan.symm.trans hfound)
    exact absurd hnil hne
  · have hretained : (p.build .standard x).2.session.retained = out.plan.workingSet := by rw [hy]
    exact ⟨out, _, hbuild, hretained ▸ hplanned, hfiles, hfreed,
      (hp.planned_of_build h rfl hout hscan hne).2, hp.writtenAt_build h .standard⟩

/-- The files of a plan have resolved paths, and no two of them one place. -/
theorem Grounded.namesEntry_of_plan (hp : p.Grounded) (h : t.WellFormed)
    (hplan : p.plan t = .ok plan) :
    (∀ o ∈ plan.outputs, FileTree.NamesEntry o.1) ∧ (plan.outputs.map (·.1.place)).Nodup := by
  rcases outputs_of_plan hp.toValid h hplan with hnil | hall
  · rw [hnil]
    exact ⟨nofun, List.nodup_nil⟩
  · rw [hall]
    refine ⟨hp.namesEntry_outputs _, ?_⟩
    rw [outputs, List.map_map]
    exact hp.nodup_places _

/-- A build that ended well wrote the files of its plan, which are current then. -/
theorem Grounded.isCurrent_of_build (hp : p.Grounded) (h : x.tree.WellFormed)
    (hw : w.dryRun = false) (hbuild : p.build w x = (.ok out, y)) :
    FileTree.WrittenAt (places out.plan) x.tree y.tree ∧
      ∀ o ∈ out.plan.outputs, y.tree.isCurrent o.1 o.2 = true := by
  obtain ⟨hplan, hwrite, rfl⟩ := eq_of_build hbuild
  obtain ⟨hnames, hnodup⟩ := hp.namesEntry_of_plan h hplan
  have hwritten := Writer.writtenAt_writeAll (w := w) h hnames
  refine ⟨?_, fun o ho => ?_⟩
  · rw [places_eq]
    exact hwritten
  · exact (Writer.isCurrent_iff hwritten.wellFormed (hnames o ho)).2
      (Writer.contentAt?_of_writeAll hw h hnames hnodup hwrite o ho)

/-! ## Building again -/

section Undisturbed

variable (hp : p.Grounded) (h : t.WellFormed) (hplan : p.plan t = .ok plan)
  (hwritten : FileTree.WrittenAt (places plan) t u) (hundisturbed : p.Undisturbed plan t u)

include hp h hplan hwritten hundisturbed

/-- Scans find the same as before the build. -/
theorem Undisturbed.scan_eq (hs : p.scannerFor? root = some s) : s.scan t = s.scan u := by
  have hsub := places_subset hp.toValid h hplan
  have hrules : FileTree.SameRules t u := ⟨fun dir _ => hp.rulesAt_eq hwritten hsub dir, fun dir =>
    Bool.eq_iff_iff.2 ⟨hwritten.isSome_entryAt?, hundisturbed.repositories dir⟩⟩
  refine Scanner.scan_congr h hwritten.wellFormed (hp.rooted_scanner hs) hrules ?_
    fun f hf haccepts => ?_
  · refine Bool.eq_iff_iff.2 ⟨hwritten.directories _, fun hdir => ?_⟩
    cases root with
    | api =>
      -- the plan was made, so the directory of functions could be scanned
      obtain rfl := Option.some.inj hs
      obtain ⟨paths, hscan, -⟩ := plan_eq_ok hp.toValid h hplan
      exact ((Scanner.scan_eq_ok_iff h hp.resolved_apiScanner).1 hscan).2.1
    | events =>
      obtain ⟨dir, hdir?, rfl⟩ := Option.map_eq_some_iff.1 hs
      exact hundisturbed.events dir hdir? hdir
  · rw [hwritten.contentAt?_eq fun hin => hp.place_not_mem_of_accepts hf hs haccepts (hsub hin)]

/-- A plan that is made after the build is the same. -/
theorem Undisturbed.plan_eq : p.plan u = .ok plan := by
  rw [← hplan]
  refine (plan_congr (fun root s hs =>
    hundisturbed.scan_eq hp h hplan hwritten hs) fun root s paths hs hscan => ?_).symm
  refine hwritten.program_eq h (fun f hf => ?_) (hundisturbed.imports root s paths hs hscan)
  have hscanned : p.Scanned t root f := ⟨s, paths, hs, hscan, hf⟩
  exact ⟨(hp.of_scanned h hscanned).1.full, fun hin =>
    hp.place_not_mem_of_scanned h hscanned (places_subset hp.toValid h hplan hin)⟩

end Undisturbed

/-- A build that finds all files of its plan current leaves them alone. -/
theorem build_of_isCurrent (hunlocked : y.session.locked = false) (hw : w.dryRun = false)
    (hplan : p.plan y.tree = .ok plan)
    (hcurrent : ∀ o ∈ plan.outputs, y.tree.isCurrent o.1 o.2 = true) :
    p.build w y = (.ok ⟨plan, plan.outputs.map fun o => .unchanged o.1⟩,
      ⟨⟨plan.workingSet, false⟩, y.tree⟩) := by
  have hwrites := Writer.writeAll_of_isCurrent hw hcurrent
  have hbuilt := p.built w y
  generalize p.build w y = again at hbuilt ⊢
  obtain ⟨result, z⟩ := again
  cases hbuilt with
  | busy hlocked => rw [hunlocked] at hlocked; cases hlocked
  | unplanned _ hnone => rw [hplan] at hnone; cases hnone
  | failed _ hplan' hwrite =>
    obtain rfl := Except.ok.inj (hplan.symm.trans hplan')
    rw [hwrites] at hwrite
    cases hwrite
  | done _ hplan' hwrite =>
    obtain rfl := Except.ok.inj (hplan.symm.trans hplan')
    rw [hwrites] at hwrite ⊢
    obtain rfl := Except.ok.inj hwrite
    rfl

/-- **Builds are idempotent.** After a build that ended well and brought nothing into being that it
would have read, a plan comes to the same working set and the same files, all of which are current,
and another build just finds that they are unchanged. -/
theorem build_idempotent {base : Path} {config : Config} (hp : ofConfig base config = .ok p)
    (hbase : base.isAbsolute = true) (hclimbs : p.climbs = false) (h : x.tree.WellFormed)
    (hw : w.dryRun = false) (hbuild : p.build w x = (.ok out, y))
    (hundisturbed : p.Undisturbed out.plan x.tree y.tree) :
    p.plan y.tree = .ok out.plan ∧
      (∀ f ∈ out.plan.files, y.tree.isCurrent f.path f.text = true) ∧
      ∀ w' : Writer, w'.dryRun = false → p.build w' y =
        (.ok ⟨out.plan, out.plan.files.map fun f => .unchanged f.path⟩, y) := by
  have hgrounded := grounded_of_ofConfig hp hbase hclimbs
  obtain ⟨hplan, -, hy⟩ := eq_of_build hbuild
  obtain ⟨hwritten, hcurrent⟩ := hgrounded.isCurrent_of_build h hw hbuild
  have hsame := hundisturbed.plan_eq hgrounded h hplan hwritten
  refine ⟨hsame, fun f hf => hcurrent (f.path, f.text) (List.mem_map.2 ⟨f, hf, rfl⟩),
    fun w' hw' => ?_⟩
  have hunlocked : y.session.locked = false := by rw [hy]
  have hagain := build_of_isCurrent hunlocked hw' hsame hcurrent
  have hrest : (⟨⟨out.plan.workingSet, false⟩, y.tree⟩ : World) = y := by rw [hy]
  rw [hagain, hrest, Plan.outputs, List.map_map]
  rfl

/-! ## The small project -/

/-- Empty sources import nothing, so no import that they reach can stand for anything. -/
theorem keepsFrom_of_sources (h : t.WellFormed) {paths : List Path}
    (hsources : ∀ r ∈ paths, r.Rooted ∧ r.place ∈ smallSources ∧
      t.contentAt? r.place = some ByteArray.empty) (places : List Place) :
    (program t paths).KeepsFrom places := by
  intro m hm specifier hspecifier
  obtain ⟨q, ⟨r, hr, hreach⟩, hread⟩ :=
    (h.lawful.mem_modules_iff fun r hr => (hsources r hr).1.full).1 hm
  obtain ⟨hrooted, hin, hc⟩ := hsources r hr
  obtain ⟨-, -, -, -, hnone⟩ := exists_read_small h hin hc
  obtain ⟨m', hm', hdependencies⟩ := exists_module_small h hin hc
  rw [← hrooted.eq_pathOf] at hnone hm'
  obtain rfl := Disk.eq_of_reaches hnone hreach
  obtain rfl := Option.some.inj (hm'.symm.trans hread)
  rw [hdependencies] at hspecifier
  cases hspecifier

/-- No import of the small project can stand for anything. -/
theorem Small.keepsFrom (hp : p.Small) (h : t.WellFormed) (hsmall : SmallFiles t)
    (hs : p.scannerFor? root = some s) {paths : List Path} (hscan : s.scan t = .ok paths)
    (places : List Place) : (program t paths).KeepsFrom places := by
  refine keepsFrom_of_sources h (fun r hr => ?_) places
  have hscanned : p.Scanned t root r := ⟨s, paths, hs, hscan, hr⟩
  obtain ⟨hrooted, hsome, -⟩ := hp.of_scanned h hscanned
  have hnot := hp.place_not_mem_of_scanned h hscanned
  exact ⟨hrooted, (hsmall _ hsome).resolve_left (hp.artifactPlaces_eq ▸ hnot)⟩

/-- The artifacts of the small project bring no repository into being. -/
theorem isRepository_of_writtenAt_small (h : FileTree.WrittenAt smallArtifacts t u) {dir : Place}
    (hdir : u.isRepository dir = true) : t.isRepository dir = true := by
  have hnone : ∀ a ∈ smallArtifacts, ".git" ∉ a := by decide
  have hin : ".git" ∈ dir ++ [".git"] := by simp
  rw [FileTree.isRepository] at hdir ⊢
  cases hentry : t.entryAt? (dir ++ [".git"]) with
  | some e => rfl
  | none =>
    rcases h.adds _ hentry hdir with ⟨hplace, -⟩ | ⟨⟨a, ha, hpre, -⟩, -⟩
    · exact absurd hin (hnone _ hplace)
    · exact absurd (hpre.subset hin) (hnone a ha)

/-- So it is for a build that writes the artifacts for functions and events. -/
theorem build_idempotent_small : ∃ p x out y, ofConfig ⟨"/proj"⟩ smallConfig = .ok p ∧
    p.build .standard x = (.ok out, y) ∧ p.Undisturbed out.plan x.tree y.tree ∧
    out.plan.files ≠ [] ∧ p.plan y.tree = .ok out.plan ∧
    (∀ f ∈ out.plan.files, y.tree.isCurrent f.path f.text = true) ∧
    p.build .standard y = (.ok ⟨out.plan, out.plan.files.map fun f => .unchanged f.path⟩, y) := by
  obtain ⟨p, hp, hclimbs, hsmall⟩ := exists_small
  let tree := smallTree [smallApiDir, smallEventDir] [smallApiFile]
  have hwf : tree.WellFormed := by decide +kernel
  have hfiles : SmallFiles tree := smallFiles_smallTree hwf (by decide)
  obtain ⟨paths, hscan, hne⟩ :=
    hsmall.exists_scan hwf (hfiles.hasIgnoreFiles hwf) (by decide +kernel)
  have hfree : tree.IsFree p.artifactPlaces :=
    hsmall.isFree hwf (by decide +kernel) (by decide +kernel)
  obtain ⟨out, y, hbuilt⟩ :=
    hsmall.exists_builtWell (x := ⟨.initial, tree⟩) hwf rfl hfree hscan hne
  have hwritten := hbuilt.written
  rw [hsmall.artifactPlaces_eq] at hwritten
  have hundisturbed : p.Undisturbed out.plan tree y.tree := by
    refine ⟨fun dir hdir _ => ?_, fun dir => isRepository_of_writtenAt_small hwritten,
      fun root s paths hs hscan => hsmall.keepsFrom hwf hfiles hs hscan _⟩
    obtain ⟨s, hs, hplace, -⟩ := hsmall.events
    obtain ⟨dir', hdir', rfl⟩ := Option.map_eq_some_iff.1 hs
    obtain rfl := Option.some.inj (hdir.symm.trans hdir')
    rw [hplace]
    decide +kernel
  obtain ⟨hsame, hcurrent, hagain⟩ :=
    build_idempotent hp (by decide) hclimbs hwf rfl hbuilt.build hundisturbed
  exact ⟨p, _, out, y, hp, hbuilt.build, hundisturbed, hbuilt.files ▸ generate_ne_nil p _, hsame,
    hcurrent, hagain .standard rfl⟩

/-! ## Builds that disturb themselves

The directory of events is not scanned by a build that only then makes it, for the sake of an
artifact. Nor do the ignore files around a directory count until it has a `.git`, and an artifact
may go below one.
-/

/-- There are files with functions to be found, and no import can stand for an artifact. -/
structure Buildable (p : Project) (t : FileTree) : Prop where
  wellFormed : t.WellFormed
  found : ∃ f, p.Scanned t .api f
  imports : ∀ root s paths, p.scannerFor? root = some s → s.scan t = .ok paths →
    (program t paths).KeepsFrom p.artifactPlaces

/-- A build ends well, and so does another one after it, but with another working set. -/
def BuildsOtherwise (p : Project) (x : World) : Prop :=
  ∃ out y out', p.build .standard x = (.ok out, y) ∧ (p.build .standard y).1 = .ok out' ∧
    out'.plan.workingSet ≠ out.plan.workingSet

/-- A build of the small project makes the directory of events, and another one has events. -/
theorem Small.buildsOtherwise (hp : p.Small) : ∃ x, p.Buildable x.tree ∧ p.BuildsOtherwise x := by
  let tree := smallTree [smallApiDir] [smallApiFile]
  have hwf : tree.WellFormed := by decide +kernel
  have hfiles : SmallFiles tree := smallFiles_smallTree hwf (by decide)
  have hread : tree.contentAt? smallApiFile = some ByteArray.empty := by decide +kernel
  obtain ⟨paths, hscan, hne⟩ := hp.exists_scan hwf (hfiles.hasIgnoreFiles hwf) hread
  obtain ⟨f, hf⟩ := List.exists_mem_of_ne_nil paths hne
  have hfree : tree.IsFree p.artifactPlaces :=
    hp.isFree hwf (by decide +kernel) (by decide +kernel)
  obtain ⟨out, y, hbuilt⟩ := hp.exists_builtWell (x := ⟨.initial, tree⟩) hwf rfl hfree hscan hne
  have hnone := hp.events?_eq_none hwf (by decide +kernel) hbuilt.planned
  -- the other build finds the directory that the first one made
  have hwritten := hbuilt.written
  have hready := hp.ready (hwritten.directories smallApiDir (by decide +kernel))
    (hp.isDirectoryAt_eventDir hwritten.wellFormed hbuilt.current)
  have hfiles' := hfiles.of_writtenAt (hp.artifactPlaces_eq ▸ hwritten)
  have hread' : y.tree.contentAt? smallApiFile = some ByteArray.empty := by
    rw [← hwritten.contentAt?_eq (hp.artifactPlaces_eq ▸ by decide), hread]
  obtain ⟨paths', hscan', hne'⟩ :=
    hp.exists_scan hwritten.wellFormed (hfiles'.hasIgnoreFiles hwritten.wellFormed) hread'
  obtain ⟨out', z, hbuilt'⟩ := hp.exists_builtWell hwritten.wellFormed hbuilt.unlocked
    (hfree.of_writtenAt hwritten) hscan' hne'
  have hsome := hbuilt'.planned.isSome_events? hp.toGrounded hwritten.wellFormed hready
  refine ⟨⟨.initial, tree⟩, ⟨hwf, ⟨f, _, paths, rfl, hscan, hf⟩,
    fun root s paths hs hscan => hp.keepsFrom hwf hfiles hs hscan _⟩, out, y, out', hbuilt.build,
    congrArg Prod.fst hbuilt'.build, fun heq => ?_⟩
  obtain ⟨s, hs, -⟩ := hp.events
  obtain ⟨dir, hdir, -⟩ := Option.map_eq_some_iff.1 hs
  rw [heq, hnone, hdir] at hsome
  cases hsome

/-- A configuration that has an artifact below the place where a repository has its `.git`. -/
def nestedConfig : Config :=
  { smallConfig with
    output := ⟨⟨".git/preload"⟩, ⟨"src/main/ipc"⟩, ⟨"src/renderer/ipc"⟩⟩
    events := .default }

/-- The places that its artifacts go to. -/
def nestedArtifacts : List Place :=
  [["proj", ".git", "preload", "api.ts"], ["proj", "src", "main", "ipc", "handlers.ts"],
    ["proj", "src", "main", "ipc", "register.ts"], ["proj", "src", "renderer", "ipc", "api.ts"]]

/-- A file for functions that an ignore file names. -/
def nestedTree : FileTree :=
  (smallTree [smallApiDir] [smallApiFile]).put ["proj", ".gitignore"] (.file "x.ts".toUTF8)

/-- What the project of the configuration is like. -/
structure Nested (p : Project) : Prop extends Grounded p where
  artifactPlaces_eq : p.artifactPlaces = nestedArtifacts
  bridge : (Emit.Artifact.bridge.fileIn p.emit.dirs.preload).place =
    ["proj", ".git", "preload", "api.ts"]
  apiDir : p.apiScanner.root.place = smallApiDir
  apiFile : p.apiScanner.accepts (FileTree.pathOf smallApiFile) = true
  noEvents : p.eventDir? = none

/-- The configuration is valid and its project does not climb above the root. -/
theorem exists_nested : ∃ p, ofConfig ⟨"/proj"⟩ nestedConfig = .ok p ∧ p.climbs = false ∧
    p.Nested := by
  have hfacts : (ofConfig ⟨"/proj"⟩ nestedConfig).toOption.any (fun p =>
      !p.climbs && p.artifactPlaces == nestedArtifacts &&
        (Emit.Artifact.bridge.fileIn p.emit.dirs.preload).place ==
          ["proj", ".git", "preload", "api.ts"] &&
        p.apiScanner.root.place == smallApiDir &&
        p.apiScanner.accepts (FileTree.pathOf smallApiFile) && p.eventDir?.isNone) = true := by
    decide +kernel
  obtain ⟨p, hok, hall⟩ := exists_of_any hfacts
  simp only [Bool.and_eq_true, Bool.not_eq_true', beq_iff_eq, Option.isNone_iff_eq_none] at hall
  obtain ⟨⟨⟨⟨⟨hclimbs, hplaces⟩, hbridge⟩, hdir⟩, hfile⟩, hnone⟩ := hall
  exact ⟨p, hok, hclimbs, grounded_of_ofConfig hok (by decide) hclimbs, hplaces, hbridge, hdir,
    hfile, hnone⟩

/-- The tree is well-formed. -/
theorem wellFormed_nestedTree : nestedTree.WellFormed := by decide +kernel

/-- A scan finds the file for functions only, unless that is hidden. -/
theorem Nested.mem_scan_iff (hp : p.Nested) (h : FileTree.WrittenAt p.artifactPlaces nestedTree t)
    {paths : List Path} (hscan : p.apiScanner.scan t = .ok paths) {f : Path} : f ∈ paths ↔
      f = FileTree.pathOf smallApiFile ∧ t.isReached true smallApiDir smallApiFile = true := by
  have hs : p.scannerFor? .api = some p.apiScanner := rfl
  have hroot := hp.rooted_scanner hs
  obtain ⟨hrooted, hplace⟩ := rooted_pathOf_small smallApiFile_mem
  have hfiles : ∀ e ∈ nestedTree.files, smallApiDir <+: e.1 → e.1 = smallApiFile := by
    decide +kernel
  have hreached : p.apiScanner.respectsGit = true := rfl
  rw [Scanner.mem_scan_iff_reached h.wellFormed hroot hscan, hp.apiDir, hreached]
  constructor
  · rintro ⟨haccepts, hf, hsome, hin⟩
    have hwithin := (hroot.isWithin_iff hf).1 (Scanner.accepts_imp haccepts).1
    rw [← h.contentAt?_eq (hp.place_not_mem_of_accepts hf hs haccepts)] at hsome
    obtain ⟨content, hc⟩ := Option.isSome_iff_exists.1 hsome
    have heq := hfiles _ (wellFormed_nestedTree.mem_files_iff.2 hc) (hp.apiDir ▸ hwithin)
    exact ⟨hf.ext hrooted (heq.trans hplace.symm), heq ▸ hin⟩
  · rintro ⟨rfl, hin⟩
    rw [hplace]
    exact ⟨hp.apiFile, hrooted, h.files _ (by decide +kernel), hin⟩

/-- No artifact makes a repository of any other directory. -/
theorem Nested.eq_of_isRepository (hp : p.Nested)
    (h : FileTree.WrittenAt p.artifactPlaces nestedTree t) {dir : Place}
    (hdir : t.isRepository dir = true) : dir = ["proj"] := by
  have hmissing : nestedTree.entryAt? (dir ++ [".git"]) = none := by
    have hnone : ∀ e ∈ nestedTree.entries, ".git" ∉ e.1 := by decide +kernel
    refine Option.eq_none_iff_forall_ne_some.2 fun e he => ?_
    exact hnone _ (wellFormed_nestedTree.mem_iff.2 ⟨by simp, he⟩) (by simp)
  have honly : ∀ a ∈ p.artifactPlaces, dir ++ [".git"] <+: a → dir = ["proj"] := by
    have hinits : ∀ a ∈ nestedArtifacts, ∀ q ∈ a.inits, q.getLast? = some ".git" →
        q.dropLast = ["proj"] := by decide
    intro a ha hpre
    rw [hp.artifactPlaces_eq] at ha
    simpa using hinits a ha _ ((List.mem_inits _ _).2 hpre) (by simp)
  rcases h.adds _ hmissing hdir with ⟨hplace, -⟩ | ⟨⟨a, ha, hpre, -⟩, -⟩
  · exact honly _ hplace (List.prefix_refl _)
  · exact honly a ha hpre

/-- The ignore file counts where an artifact has made a repository of the directory around it. -/
theorem Nested.isReached_eq_false (hp : p.Nested)
    (h : FileTree.WrittenAt p.artifactPlaces nestedTree t)
    (hgit : t.isRepository ["proj"] = true) :
    t.isReached true smallApiDir smallApiFile = false := by
  -- it is so where nothing but the repository is made
  let v := nestedTree.put ["proj", ".git"] .directory
  have hv : FileTree.WrittenAt p.artifactPlaces nestedTree v :=
    wellFormed_nestedTree.writtenAt_put_directory ⟨by decide, by decide, by decide +kernel⟩
      (by decide +kernel) (a := ["proj", ".git", "preload", "api.ts"])
      (hp.artifactPlaces_eq ▸ by decide) ⟨["preload", "api.ts"], rfl⟩ (by decide)
  have hrules : FileTree.SameRules v t := by
    refine ⟨fun dir file hfile => ?_, fun dir => Bool.eq_iff_iff.2 ⟨fun hdir => ?_, fun hdir => ?_⟩⟩
    · rw [← hp.rulesAt_eq hv (List.Subset.refl _) dir hfile,
        hp.rulesAt_eq h (List.Subset.refl _) dir hfile]
    · rw [hp.eq_of_isRepository hv hdir, hgit]
    · rw [hp.eq_of_isRepository h hdir]
      rfl
  rw [← hrules.isReached_eq]
  decide +kernel

/-- Where the artifacts are current one of them has made a repository. -/
theorem Nested.isRepository_of_current (hp : p.Nested) (h : x.tree.WellFormed)
    (hcurrent : p.Current x) : x.tree.isRepository ["proj"] = true := by
  have hin : Emit.Artifact.bridge ∈ Emit.artifactsOf x.session.retained :=
    List.mem_append_left _ List.mem_cons_self
  obtain ⟨f, hf, hpath⟩ := exists_generate (p := p) hin rfl
  have hread := hcurrent f hf
  rw [h.read_eq_ok_iff (hp.rooted_generate hf).1.resolved.components, hpath, hp.bridge] at hread
  have hgit : x.tree.isDirectoryAt ["proj", ".git"] = true := by
    refine h.isDirectoryAt_of_append (List.cons_ne_nil "preload" ["api.ts"])
      (FileTree.isSome_entryAt?_iff.2 (.inr ?_))
    rw [List.cons_append, List.cons_append, List.nil_append, hread.2]
    rfl
  exact FileTree.isSome_entryAt?_iff.2 (.inl hgit)

/-- A build without files to read plans nothing. -/
theorem plan_of_scan_eq_nil (h : p.apiScanner.scan t = .ok []) : p.plan t = .ok .empty := by
  rw [Project.plan, h]
  rfl

/-- A build of the project makes a repository, in which another build finds no functions. -/
theorem Nested.buildsOtherwise (hp : p.Nested) :
    ∃ x, p.Buildable x.tree ∧ p.BuildsOtherwise x := by
  have hwf := wellFormed_nestedTree
  have hs : p.scannerFor? .api = some p.apiScanner := rfl
  have hroot := hp.rooted_scanner hs
  obtain ⟨hrooted, hplace⟩ := rooted_pathOf_small smallApiFile_mem
  have hread : nestedTree.contentAt? smallApiFile = some ByteArray.empty := by decide +kernel
  have hapi : nestedTree.isDirectoryAt p.apiScanner.root.place = true := by
    rw [hp.apiDir]
    decide +kernel
  obtain ⟨paths, hscan⟩ := Scanner.exists_scan hwf hroot hapi
  have hmem := fun f => hp.mem_scan_iff (hwf.writtenAt _) hscan (f := f)
  have hin : FileTree.pathOf smallApiFile ∈ paths := (hmem _).2 ⟨rfl, by decide +kernel⟩
  have hsources : ∀ r ∈ paths, r.Rooted ∧ r.place ∈ smallSources ∧
      nestedTree.contentAt? r.place = some ByteArray.empty := fun r hr => by
    rw [((hmem r).1 hr).1, hplace]
    exact ⟨hrooted, smallApiFile_mem, hread⟩
  have hfree : nestedTree.IsFree p.artifactPlaces := by
    rw [hp.artifactPlaces_eq]
    exact hwf.isFree (by decide +kernel) (by decide +kernel) (by decide +kernel)
  obtain ⟨out, y, hbuilt⟩ := hp.exists_builtWell (x := ⟨.initial, nestedTree⟩) hwf rfl hfree hscan
    (List.ne_nil_of_mem hin)
  have hwritten := hbuilt.written
  have hgit := hp.isRepository_of_current hwritten.wellFormed hbuilt.current
  obtain ⟨paths', hscan'⟩ :=
    Scanner.exists_scan hwritten.wellFormed hroot (hwritten.directories _ hapi)
  have hnil : paths' = [] := List.eq_nil_iff_forall_not_mem.2 fun f hf => by
    have hreached := ((hp.mem_scan_iff hwritten hscan').1 hf).2
    rw [hp.isReached_eq_false hwritten hgit] at hreached
    cases hreached
  have hagain := build_of_isCurrent (w := .standard) hbuilt.unlocked rfl
    (plan_of_scan_eq_nil (hnil ▸ hscan')) nofun
  refine ⟨⟨.initial, nestedTree⟩,
    ⟨hwf, ⟨_, _, paths, rfl, hscan, hin⟩, fun root s found hs hfound => ?_⟩, out, y, _,
    hbuilt.build, congrArg Prod.fst hagain, fun heq => ?_⟩
  · cases root with
    | api =>
      obtain rfl := Option.some.inj hs
      obtain rfl := Except.ok.inj (hscan.symm.trans hfound)
      exact keepsFrom_of_sources hwf hsources _
    | events =>
      obtain ⟨dir, hdir, -⟩ := Option.map_eq_some_iff.1 hs
      rw [hp.noEvents] at hdir
      cases hdir
  · obtain ⟨m, hm, -⟩ := exists_module_small hwf smallApiFile_mem hread
    have hmodule : (program nestedTree paths).module? (FileTree.pathOf smallApiFile) = some m :=
      (hwf.lawful.module?_load_eq_some_iff (fun r hr => (hsources r hr).1.full)
        hrooted.resolved).2 ⟨⟨_, hin, .refl⟩, hm⟩
    have hrecord : _ ∈ p.plannedApi nestedTree paths :=
      mem_extractFiles.2 ⟨_, hin, m, hmodule, rfl⟩
    have hapi := Record.mem_sortAll.2 ⟨_, hrecord, rfl⟩
    rw [← hbuilt.planned.api, ← heq] at hapi
    cases hapi

/-- **Builds need not be idempotent.** Another build comes to another working set where the first
one makes the directory of events, and where it makes a repository with an ignore file. -/
theorem builds_otherwise_small :
    (∃ p x, ofConfig ⟨"/proj"⟩ smallConfig = .ok p ∧ p.climbs = false ∧ p.Buildable x.tree ∧
      p.BuildsOtherwise x) ∧
    ∃ p x, ofConfig ⟨"/proj"⟩ nestedConfig = .ok p ∧ p.climbs = false ∧ p.Buildable x.tree ∧
      p.BuildsOtherwise x := by
  obtain ⟨p, hp, hclimbs, hsmall⟩ := exists_small
  obtain ⟨q, hq, hclimbs', hnested⟩ := exists_nested
  obtain ⟨x, hx, hotherwise⟩ := hsmall.buildsOtherwise
  obtain ⟨z, hz, hotherwise'⟩ := hnested.buildsOtherwise
  exact ⟨⟨p, x, hp, hclimbs, hx, hotherwise⟩, q, z, hq, hclimbs', hz, hotherwise'⟩

end IpcWiring.Project
