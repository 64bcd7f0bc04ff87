import IpcWiring.Proofs.Build.Invariant

/-!
# The order of changes

While changes are handled the tree only changes where artifacts go. That makes no difference to what
the changes mean (`Project.react?_of_writtenAt`), nor to what is found in the files that are read
again (`Project.edits_of_writtenAt`), as long as no change is of a path that artifacts will bring
into being (`Project.ClearOf`) and no file is read again that could import an artifact
(`Project.Settled`). So a list of changes makes the edits that its members would make on the tree at
the start (`Project.edited_handleAll`), and as these are compatible the working set after them only
depends on which changes there were (`Project.retained_eq_of_same_changes`).
-/

namespace IpcWiring.Project

variable {p : Project} {t u : FileTree} {w : Writer} {x : World} {c : Change} {q : Path}

/-! ## What changes are clear of -/

/-- Unless something is at the path of the change, or nothing that happens there means anything, no
artifact goes to this place or below it. -/
def ClearOf (p : Project) (t : FileTree) (c : Change) : Prop :=
  ∀ s, p.scannerFor? c.root = some s → s.isExcluded c.path.normalize = false →
    t.contains c.path.normalize = false →
      ∀ place ∈ p.artifactPlaces, ¬ c.path.normalize.place <+: place

/-- Whatever artifacts are written, imports lead from the file to none of them. -/
def Settled (p : Project) (t : FileTree) (f : Path) : Prop :=
  ∀ u, FileTree.WrittenAt p.artifactPlaces t u →
    ∀ q, (Disk.ofTree u).Reaches f q → q.place ∉ p.artifactPlaces

/-! ## What writing artifacts does not change -/

/-- Writing brings nothing into being at a place that leads to no place that is written. -/
theorem contains_of_writtenAt {places : List Place} (ht : t.WellFormed)
    (h : FileTree.WrittenAt places t u) (hq : q.Resolved)
    (hclear : t.contains q = false → ∀ place ∈ places, ¬ q.place <+: place) :
    u.contains q = t.contains q := by
  rw [Bool.eq_iff_iff, h.wellFormed.contains_iff hq.components, ht.contains_iff hq.components]
  refine and_congr_right fun hne => ⟨fun ⟨hsome, hdir⟩ => ?_, fun ⟨hsome, hdir⟩ =>
    ⟨h.isSome_entryAt? hsome, fun hends => h.directories _ (hdir hends)⟩⟩
  cases hentry : t.entryAt? q.place with
  | some e =>
    refine ⟨rfl, fun hends => ?_⟩
    have hthere : (t.entryAt? q.place).isSome = true := by rw [hentry]; rfl
    rcases FileTree.isSome_entryAt?_iff.1 hthere with hd | hc
    · exact hd
    · have hnot := FileTree.isDirectoryAt_of_contentAt? _ (h.files _ hc)
      rw [hdir hends] at hnot
      cases hnot
  | none =>
    have hmissing : t.contains q = false := by
      rw [← Bool.not_eq_true, ht.contains_iff hq.components, hentry]
      exact fun ⟨_, hnone, _⟩ => nomatch hnone
    rcases h.adds _ hentry hsome with ⟨hin, -⟩ | ⟨⟨place, hin, hpre, -⟩, -⟩
    · exact absurd (List.prefix_refl _) (hclear hmissing _ hin)
    · exact absurd hpre (hclear hmissing _ hin)

/-- Writing makes no directory out of something that was there. -/
theorem isDirectory_of_writtenAt {places : List Place} (ht : t.WellFormed)
    (h : FileTree.WrittenAt places t u) (hq : q.Resolved) (hthere : t.contains q = true) :
    u.isDirectory q = t.isDirectory q := by
  obtain ⟨hne, hsome, -⟩ := (ht.contains_iff hq.components).1 hthere
  rw [Bool.eq_iff_iff, h.wellFormed.isDirectory_iff hq.components,
    ht.isDirectory_iff hq.components]
  refine and_congr_right fun _ => ⟨fun hdir => ?_, h.directories _⟩
  rcases FileTree.isSome_entryAt?_iff.1 hsome with hd | hc
  · exact hd
  · rw [FileTree.isDirectoryAt_of_contentAt? _ (h.files _ hc)] at hdir
    cases hdir

/-- Writing artifacts does not change what a change means. -/
theorem react?_of_writtenAt (ht : t.WellFormed) (h : FileTree.WrittenAt p.artifactPlaces t u)
    (hc : p.ClearOf t c) : p.react? u c = p.react? t c := by
  have hq := Path.resolved_normalize c.path
  have hcontains : ∀ s, p.scannerFor? c.root = some s → s.isExcluded c.path.normalize = false →
      u.contains c.path.normalize = t.contains c.path.normalize := fun s hs hexcluded =>
    contains_of_writtenAt ht h hq (hc s hs hexcluded)
  refine Option.ext fun r => ?_
  cases r with
  | remove q =>
    rw [react?_eq_remove_iff, react?_eq_remove_iff]
    refine and_congr_right fun heq => and_congr_right fun ⟨s, hs, hexcluded⟩ => ?_
    rw [heq] at hexcluded ⊢
    rw [hcontains s hs hexcluded]
  | update q =>
    rw [react?_eq_update_iff, react?_eq_update_iff]
    refine and_congr_right fun heq => and_congr_right fun ⟨s, hs, haccepts⟩ => ?_
    rw [heq] at haccepts ⊢
    rw [hcontains s hs (Scanner.accepts_imp haccepts).2]
    refine and_congr_right fun hthere => ?_
    rw [isDirectory_of_writtenAt ht h hq hthere]

/-- What is found in a file is the same in programs that agree on what it reaches. -/
theorem found_of_agreeOn {S : Path → Prop}
    (h : Program.AgreeOn S (program t [q]) (program u [q])) (hq : S q) :
    p.foundApi t q = p.foundApi u q ∧ foundEvents t q = foundEvents u q := by
  have hapi : apiFunctions p.rules (program t [q]) q = apiFunctions p.rules (program u [q]) q :=
    funext fun m => h.apiFunctions hq p.rules m
  have hevents : apiEvents (program t [q]) q = apiEvents (program u [q]) q :=
    funext fun m => h.apiEvents hq m
  constructor
  · simp only [foundApi, extractFiles, List.map_cons, List.map_nil, h.module?_eq hq, hapi]
  · simp only [foundEvents, extractFiles, List.map_cons, List.map_nil, h.module?_eq hq, hevents]

/-- What is found in a file is the same in trees that only differ where it does not reach. -/
theorem found_of_agreeBut {except : Path → Prop} (ht : t.WellFormed) (hu : u.WellFormed)
    (h : Disk.AgreeBut except (.ofTree t) (.ofTree u)) (hq : q.Full)
    (hclear : ∀ r, (Disk.ofTree u).Reaches q r → ¬ except r) :
    p.foundApi t q = p.foundApi u q ∧ foundEvents t q = foundEvents u q :=
  found_of_agreeOn (h.agreeOn ht.lawful hu.lawful hq hclear) .refl

/-- A path that a scanner with a full root accepts is full. -/
theorem full_of_accepts {s : Scanner} (hroot : s.root.Full) (hq : q.Resolved)
    (h : s.accepts q = true) : q.Full :=
  ⟨hq, (Path.isWithin_iff.1 (Scanner.accepts_imp h).1).subset hroot.absolute⟩

/-- A path that a scanner accepts whose root leads below the root leads down from the root. -/
theorem rooted_of_accepts {s : Scanner} (hroot : s.root.Rooted) (hne : s.root.place ≠ [])
    (hq : q.Resolved) (h : s.accepts q = true) : q.Rooted := by
  obtain ⟨name, names, hnames⟩ := List.exists_cons_of_ne_nil hne
  have hpre := Path.isWithin_iff.1 (Scanner.accepts_imp h).1
  rw [hroot.components_eq, hnames] at hpre
  obtain ⟨⟨front, hfront, hcs⟩, -⟩ := Path.components_eq_place hq.components
  refine ⟨hq, ?_⟩
  rw [hcs] at hpre
  simp only [Component.fronts, List.mem_cons, List.not_mem_nil, or_false] at hfront
  rcases hfront with rfl | rfl | rfl | rfl
  · obtain ⟨rest, hrest⟩ := hpre
    cases hplace : q.place <;> simp [hplace] at hrest
  · exact hcs
  · simp at hpre
  · simp at hpre

/-- The scanners of a project look in its directories. -/
theorem root_mem_directories {root : WatchRoot} {s : Scanner} (hs : p.scannerFor? root = some s) :
    s.root ∈ p.directories := by
  cases root with
  | api => exact mem_directories.2 (.inl (Option.some.inj hs ▸ rfl))
  | events =>
    obtain ⟨dir, hdir, rfl⟩ := Option.map_eq_some_iff.1 hs
    exact mem_directories.2 (.inr (.inl hdir))

/-- Writing artifacts does not change the edits of a change. -/
theorem edits_of_writtenAt (hfull : ∀ d ∈ p.directories, d.Full) (ht : t.WellFormed)
    (h : FileTree.WrittenAt p.artifactPlaces t u) (hc : p.ClearOf t c)
    (hsettled : ∀ f, p.react? t c = some (.update f) → p.Settled t f) :
    p.apiEdits u c = p.apiEdits t c ∧ p.eventEdits u c = p.eventEdits t c := by
  have hreact := react?_of_writtenAt ht h hc
  have hfound : ∀ f, p.react? t c = some (.update f) →
      p.foundApi u f = p.foundApi t f ∧ foundEvents u f = foundEvents t f := fun f hf => by
    obtain ⟨rfl, ⟨s, hs, haccepts⟩, -⟩ := react?_eq_update_iff.1 hf
    have hroot := hfull _ (root_mem_directories hs)
    obtain ⟨hapi, hevents⟩ := found_of_agreeBut ht h.wellFormed (h.agreeBut ht)
      (full_of_accepts hroot (Path.resolved_normalize _) haccepts) (hsettled _ hf u h)
    exact ⟨hapi.symm, hevents.symm⟩
  simp only [apiEdits, eventEdits, edits, hreact]
  cases hr : p.react? t c with
  | none => exact ⟨rfl, rfl⟩
  | some r =>
    cases r with
    | remove => exact ⟨rfl, rfl⟩
    | update f =>
      obtain ⟨hapi, hevents⟩ := hfound f hr
      simp only [hapi, hevents, and_self]

/-! ## Lists of changes -/

/-- A working set that differs from another one just by the edits of some changes. -/
structure EditedAll (p : Project) (t : FileTree) (cs : List Change) (set set' : WorkingSet) :
    Prop where
  api : set'.api = (cs.flatMap (p.apiEdits t)).foldl Record.Edit.apply set.api
  events : set'.events = (cs.flatMap (p.eventEdits t)).foldl Record.Edit.apply set.events
  isSome : set'.events?.isSome =
    (set.events?.isSome || (cs.flatMap (p.eventEdits t)).any replaces)

/-- Handling changes makes the edits that they would make on the tree at the start. -/
theorem edited_handleAll (hp : p.Valid) (hfull : ∀ d ∈ p.directories, d.Full) (ht : t.WellFormed)
    {cs : List Change} (hclear : ∀ c ∈ cs, p.ClearOf t c)
    (hsettled : ∀ c ∈ cs, ∀ f, p.react? t c = some (.update f) → p.Settled t f)
    (h : FileTree.WrittenAt p.artifactPlaces t x.tree)
    (hset : p.Consistent x.session.retained) (hwell : AllWell (p.handleAll w x cs).1) :
    p.EditedAll t cs x.session.retained (p.handleAll w x cs).2.session.retained := by
  induction cs generalizing x with
  | nil => exact ⟨rfl, rfl, by simp [handleAll]⟩
  | cons c cs ih =>
    have hall : p.handleAll w x (c :: cs) = ((p.handleChange w x c).1 ::
        (p.handleAll w (p.handleChange w x c).2 cs).1,
          (p.handleAll w (p.handleChange w x c).2 cs).2) := rfl
    rw [hall] at hwell ⊢
    have hfirst := edited_of_change hset.sorted fun o ho =>
      hwell o (List.mem_singleton.1 ho ▸ List.mem_cons_self)
    have hsound := Sound.change hp ⟨h.wellFormed, hset⟩ w c
    have hrest := ih (fun d hd => hclear d (List.mem_cons_of_mem c hd))
      (fun d hd => hsettled d (List.mem_cons_of_mem c hd))
      (h.trans (hp.writtenAt_change h.wellFormed w c)) hsound.retained
      fun o ho => hwell o (List.mem_cons_of_mem _ ho)
    obtain ⟨hapi, hevents⟩ := edits_of_writtenAt hfull ht h (hclear c List.mem_cons_self)
      (hsettled c List.mem_cons_self)
    refine ⟨?_, ?_, ?_⟩
    · rw [hrest.api, hfirst.api, hapi, List.flatMap_cons, List.foldl_append]
    · rw [hrest.events, hfirst.events, hevents, List.flatMap_cons, List.foldl_append]
    · rw [hrest.isSome, hfirst.isSome, hevents, List.flatMap_cons, List.any_append,
        Bool.or_assoc]

/-- No directory that is gone holds a file that is read again. -/
theorem isWithin_eq_false_of_react? (ht : t.WellFormed) {d : Change} {dir : Path}
    (hclear : p.ClearOf t d) (hupdate : p.react? t c = some (.update q))
    (hremove : p.react? t d = some (.remove dir)) : dir.isWithin q = false := by
  obtain ⟨rfl, -, hthere, -⟩ := react?_eq_update_iff.1 hupdate
  obtain ⟨rfl, ⟨s, hs, hexcluded⟩, hmissing⟩ := react?_eq_remove_iff.1 hremove
  have hc := Path.resolved_normalize c.path
  have hd := Path.resolved_normalize d.path
  obtain ⟨-, hsome, -⟩ := (ht.contains_iff hc.components).1 hthere
  cases hwithin : d.path.normalize.isWithin c.path.normalize with
  | false => rfl
  | true =>
    have hpre := Path.isWithin_iff.1 hwithin
    have hplace : d.path.normalize.place <+: c.path.normalize.place := hpre.filterMap _
    have hne : d.path.normalize.components ≠ [] := fun hnil => by
      obtain ⟨place, hin⟩ := artifactPlaces_ne_nil p
      refine hclear s hs hexcluded hmissing place hin ?_
      rw [Path.place, hnil]
      exact List.nil_prefix
    have hdir : d.path.normalize.place ≠ c.path.normalize.place →
        t.isDirectoryAt d.path.normalize.place = true := fun hne =>
      ht.isDirectoryAt_of_prefix hplace hne hsome
    have hthere' : t.contains d.path.normalize = true := by
      refine (ht.contains_iff hd.components).2 ⟨hne, ?_, fun hends => ?_⟩
      · by_cases heq : d.path.normalize.place = c.path.normalize.place
        · rw [heq]
          exact hsome
        · exact FileTree.isSome_entryAt?_iff.2 (.inl (hdir heq))
      · by_cases hnil : d.path.normalize.place = []
        · rw [hnil]
          rfl
        · rw [FileTree.endsAsDirectory_of_resolved hd hnil] at hends
          cases hends
    rw [hmissing] at hthere'
    cases hthere'

/-- The edits of changes on one tree are compatible. -/
theorem compatible_of_clearOf {α : Type} [Named α] {root : WatchRoot}
    {found : Path → List (Record α)} (ht : t.WellFormed)
    (hdistinct : ∀ q, Record.IsDistinct (found q)) (hpath : ∀ q, ∀ r ∈ found q, r.path = q)
    {cs : List Change} (hclear : ∀ c ∈ cs, p.ClearOf t c) :
    Record.Compatible (cs.flatMap (p.edits t root found)) :=
  compatible_edits hdistinct hpath fun _ _ d hd _ _ hupdate hremove =>
    isWithin_eq_false_of_react? ht (hclear d hd) hupdate hremove

/-! ## Confluence -/

/-- Edits of the same changes do the same. -/
theorem EditedAll.eq_of_same_changes (ht : t.WellFormed) {set set₁ set₂ : WorkingSet}
    (hset : set.IsSorted) {cs ds : List Change} (hclear : ∀ c ∈ cs, p.ClearOf t c)
    (hsame : ∀ c, c ∈ cs ↔ c ∈ ds) (h₁ : p.EditedAll t cs set set₁)
    (h₂ : p.EditedAll t ds set set₂) : set₁ = set₂ := by
  have hmem : ∀ {α : Type} (f : Change → List α) (e : α), e ∈ cs.flatMap f ↔ e ∈ ds.flatMap f :=
    fun f e => by simp only [List.mem_flatMap, hsame]
  refine WorkingSet.ext_events ?_ ?_ ?_
  · rw [h₁.api, h₂.api]
    exact Record.foldl_apply_congr hset.api (compatible_of_clearOf ht (isDistinct_foundApi p t)
      (fun _ _ => path_of_mem_extractFiles) hclear) (hmem _)
  · rw [h₁.events, h₂.events]
    exact Record.foldl_apply_congr hset.events (compatible_of_clearOf ht (isDistinct_foundEvents t)
      (fun _ _ => path_of_mem_extractFiles) hclear) (hmem _)
  · rw [h₁.isSome, h₂.isSome]
    refine congrArg _ ?_
    rw [Bool.eq_iff_iff, List.any_eq_true, List.any_eq_true]
    simp only [hmem]

/-- **Changes are confluent.** The working set after some changes only depends on which changes
there are: neither their order nor their number counts. The files are those that were there before
the first change, but for the artifacts that the changes write; `Settled` keeps the sources apart
from these, and `ClearOf` the changes. -/
theorem retained_eq_of_same_changes {base : Path} {config : Config}
    (hp : ofConfig base config = .ok p) (hbase : base.isAbsolute = true) (hx : p.Reachable x)
    (hsettled : ∀ root s f, p.scannerFor? root = some s → s.accepts f = true → f.Full →
      (x.tree.contentAt? f.place).isSome = true → p.Settled x.tree f)
    {cs ds : List Change} (hsame : ∀ c, c ∈ cs ↔ c ∈ ds) (hclear : ∀ c ∈ cs, p.ClearOf x.tree c)
    (hcs : AllWell (p.handleAll w x cs).1) (hds : AllWell (p.handleAll w x ds).1) :
    (p.handleAll w x cs).2.session.retained = (p.handleAll w x ds).2.session.retained := by
  have hvalid := valid_of_ofConfig hp
  have hfull := full_of_ofConfig hp hbase
  obtain ⟨hwf, hset⟩ := hx.sound hvalid
  have hread : ∀ c : Change, ∀ f, p.react? x.tree c = some (.update f) → p.Settled x.tree f :=
    fun c f hf => by
      obtain ⟨rfl, ⟨s, hs, haccepts⟩, hthere, hdir, -⟩ := react?_eq_update_iff.1 hf
      have hres := Path.resolved_normalize c.path
      exact hsettled c.root s _ hs haccepts
        (full_of_accepts (hfull _ (root_mem_directories hs)) hres haccepts)
        (hwf.contentAt?_of_contains hres hthere hdir)
  exact EditedAll.eq_of_same_changes hwf hset.sorted hclear hsame
    (edited_handleAll hvalid hfull hwf hclear (fun c _ => hread c) (hwf.writtenAt _) hset hcs)
    (edited_handleAll hvalid hfull hwf (fun c hc => hclear c ((hsame c).2 hc))
      (fun c _ => hread c) (hwf.writtenAt _) hset hds)

/-- Files of the small project import no artifacts. -/
theorem Small.settled (hp : p.Small) (ht : t.WellFormed)
    (hfiles : ∀ f ∈ t.files, f.1 ∈ smallSources ∧ f.2 = ByteArray.empty)
    {root : WatchRoot} {s : Scanner} {f : Path} (hs : p.scannerFor? root = some s)
    (haccepts : s.accepts f = true) (hf : f.Full) (hsome : (t.contentAt? f.place).isSome = true) :
    p.Settled t f := by
  have hne : s.root.place ≠ [] := by
    cases root with
    | api =>
      rw [← Option.some.inj hs, hp.apiDir]
      decide
    | events =>
      obtain ⟨s', hs', hdir, -⟩ := hp.events
      rw [Option.some.inj (hs.symm.trans hs'), hdir]
      decide
  have hrooted := rooted_of_accepts (hp.rooted _ (root_mem_directories hs)) hne hf.resolved haccepts
  obtain ⟨content, hc⟩ := Option.isSome_iff_exists.1 hsome
  obtain ⟨hplace, rfl⟩ := hfiles _ (ht.mem_files_iff.2 hc)
  dsimp only at hplace
  have hapart : ∀ place ∈ smallSources, place ∉ smallArtifacts := by decide
  have hnot : f.place ∉ p.artifactPlaces := by
    rw [hp.artifactPlaces_eq]
    exact hapart _ hplace
  intro u hu q hreach
  obtain ⟨-, -, m, -, hnone⟩ :=
    exists_read_small hu.wellFormed hplace ((hu.contentAt?_eq hnot).symm.trans hc)
  rw [← hrooted.eq_pathOf] at hnone
  rw [Disk.eq_of_reaches hnone hreach]
  exact hnot

/-- So it is when a change comes twice. -/
theorem retained_eq_of_same_changes_small : ∃ p x c, ofConfig ⟨"/proj"⟩ smallConfig = .ok p ∧
    p.Reachable x ∧ p.react? x.tree c = some (.update (FileTree.pathOf smallApiFile)) ∧
    (p.handleAll .standard x [c, c]).2.session.retained =
      (p.handleAll .standard x [c]).2.session.retained := by
  obtain ⟨p, hp, -, hsmall⟩ := exists_small
  let x : World := ⟨.initial, smallTree [smallApiDir] [smallApiFile]⟩
  have hwf : x.tree.WellFormed := by decide +kernel
  have hfree : x.tree.IsFree p.artifactPlaces :=
    hsmall.isFree hwf (by decide +kernel) (by decide +kernel)
  have hreact := hsmall.react?_apiFile hwf (by decide +kernel)
  have hclear : ∀ c ∈ [smallUpdate, smallUpdate], p.ClearOf x.tree c :=
    fun c hc s _ _ hmissing => by
      obtain ⟨hpath, -, hthere, -⟩ := react?_eq_update_iff.1 hreact
      have heq : c = smallUpdate := by simpa using hc
      rw [heq, ← hpath, hthere] at hmissing
      cases hmissing
  exact ⟨p, x, smallUpdate, hp, .start hwf, hreact,
    retained_eq_of_same_changes hp (by decide) (.start hwf)
      (fun root s f => hsmall.settled hwf (by decide +kernel)) (by simp) hclear
      (hsmall.well_handleAll _ hwf rfl hfree) (hsmall.well_handleAll _ hwf rfl hfree)⟩

/-! ## A directory that comes back

Where the directory of events is missing, but its events are retained, a removal of the directory
drops them. It does not if a change comes first on whose account the artifacts are written, because
some go below the directory.
-/

/-- The path of the directory of events. -/
def smallEventPath : Path := FileTree.pathOf smallEventDir

/-- The change that tells that the directory of events is gone. -/
def smallRemove : Change := ⟨.remove, smallEventPath, .events⟩

/-- The path leads down from the root to the directory of events. -/
theorem rooted_smallEventPath : smallEventPath.Rooted ∧ smallEventPath.place = smallEventDir :=
  Path.rooted_pathOf (by decide)

/-- The directory of events is to be dropped where it is missing. -/
theorem Small.react?_eventDir (hp : p.Small) (hmissing : t.contains smallEventPath = false) :
    p.react? t smallRemove = some (.remove smallEventPath) := by
  obtain ⟨s, hs, -, -, hexcluded⟩ := hp.events
  exact react?_eq_remove_iff.2 ⟨rooted_smallEventPath.1.resolved.normalize_eq.symm,
    ⟨s, hs, hexcluded⟩, hmissing⟩

/-- The session reads a file of events, and then its directory vanishes. -/
theorem Small.exists_stale (hp : p.Small) : ∃ x, p.Reachable x ∧
    x.tree = smallTree [smallApiDir] [smallApiFile] ∧ x.session.locked = false ∧
      ∃ r ∈ x.session.retained.events, smallEventPath.isWithin r.path = true := by
  let before := smallTree [smallApiDir, smallEventDir] [smallApiFile, smallEventFile]
  let found : Change := ⟨.content, FileTree.pathOf smallEventFile, .events⟩
  have hwf : before.WellFormed := by decide +kernel
  have hwf' : (smallTree [smallApiDir] [smallApiFile]).WellFormed := by decide +kernel
  have hfree : before.IsFree p.artifactPlaces :=
    hp.isFree hwf (by decide +kernel) (by decide +kernel)
  have hread : before.contentAt? smallEventFile = some ByteArray.empty := by decide +kernel
  obtain ⟨hrooted, hplace, m, hm, -⟩ := exists_read_small hwf smallEventFile_mem hread
  have hreact := hp.react?_eventFile hwf hread
  obtain ⟨hwell, hunlocked⟩ := hp.well_change (x := ⟨.initial, before⟩) hwf rfl hfree found
  have hedited := edited_of_change (x := ⟨.initial, before⟩) WorkingSet.isSorted_empty hwell
  refine ⟨_, ((Reachable.start hwf).step (.change .standard found _)).step (.edit hwf' _), rfl,
    hunlocked, _, hedited.mem_events WorkingSet.isSorted_empty rfl hreact
      ((mem_foundEvents_iff hwf hrooted.full).2 ⟨m, hm, rfl⟩), ?_⟩
  rw [Record.path_sortEntries, rooted_smallEventPath.1.isWithin_iff hrooted,
    rooted_smallEventPath.2, hplace]
  exact ⟨["a.ts"], rfl⟩

/-- An update first brings the directory back, so that the removal is ignored. -/
theorem Small.events_of_update_first (hp : p.Small) (hx : p.Sound x)
    (hunlocked : x.session.locked = false) (hfree : x.tree.IsFree p.artifactPlaces)
    (hupdate : p.react? x.tree smallUpdate = some (.update (FileTree.pathOf smallApiFile)))
    {r : EventRecord} (hr : r ∈ x.session.retained.events) :
    r ∈ (p.handleAll .standard x [smallUpdate, smallRemove]).2.session.retained.events := by
  obtain ⟨hwell, hunlocked'⟩ := hp.well_change hx.tree hunlocked hfree smallUpdate
  have hwritten := hp.writtenAt_change hx.tree .standard smallUpdate
  have hsound := hx.change hp.toValid .standard smallUpdate
  have hfirst := edited_of_change hx.retained.sorted hwell
  have hlast := edited_of_change hsound.retained.sorted
    (hp.well_change hsound.tree hunlocked' (hfree.of_writtenAt hwritten) smallRemove).1
  obtain ⟨n, hn⟩ := updated_of_well hwell hupdate
  have hcurrent := hp.current_of_change (r := .update _) hx.tree rfl hn
  have hsome := WorkingSet.isSome_of_mem_events ((hfirst.events_eq rfl).symm ▸ hr)
  obtain ⟨hrooted, hplace⟩ := rooted_smallEventPath
  have hnormal : smallRemove.path.normalize = smallEventPath := hrooted.resolved.normalize_eq
  have hback : p.react? (p.handleChange .standard x smallUpdate).2.tree smallRemove = none := by
    refine hp.react?_of_current hsound.tree hcurrent
      (hsome.trans (hsound.retained.directory hsome).symm) (hnormal.symm ▸ hrooted)
      (List.cons_ne_nil "ipc" ["handlers.ts"]) ?_
    rw [hnormal, hplace, hp.artifactPlaces_eq]
    decide
  have heq : (p.handleAll .standard x [smallUpdate, smallRemove]).2.session.retained.events =
      x.session.retained.events :=
    (hlast.events_eq_of_none hback).trans (hfirst.events_eq rfl)
  exact heq.symm ▸ hr

/-- The removal first drops the events below the directory, and the update leaves it at that. -/
theorem Small.events_of_remove_first (hp : p.Small) (hx : p.Sound x)
    (hunlocked : x.session.locked = false) (hfree : x.tree.IsFree p.artifactPlaces)
    (hremove : p.react? x.tree smallRemove = some (.remove smallEventPath))
    {r : EventRecord} (hr : smallEventPath.isWithin r.path = true) :
    r ∉ (p.handleAll .standard x [smallRemove, smallUpdate]).2.session.retained.events := by
  obtain ⟨hwell, hunlocked'⟩ := hp.well_change hx.tree hunlocked hfree smallRemove
  have hwritten := hp.writtenAt_change hx.tree .standard smallRemove
  have hsound := hx.change hp.toValid .standard smallRemove
  have hfirst := edited_of_change hx.retained.sorted hwell
  have hlast := edited_of_change hsound.retained.sorted
    (hp.well_change hsound.tree hunlocked' (hfree.of_writtenAt hwritten) smallUpdate).1
  intro hin
  have hnot := hfirst.not_isWithin rfl hremove ((hlast.events_eq rfl).symm ▸ hin)
  rw [hr] at hnot
  cases hnot

/-- The order counts if a change is of a missing directory that artifacts go below: where it comes
last, the directory is there again. -/
theorem order_matters_small : ∃ p x c d, ofConfig ⟨"/proj"⟩ smallConfig = .ok p ∧ p.Reachable x ∧
    (∀ root s f, p.scannerFor? root = some s → s.accepts f = true → f.Full →
      (x.tree.contentAt? f.place).isSome = true → p.Settled x.tree f) ∧
    AllWell (p.handleAll .standard x [c, d]).1 ∧ AllWell (p.handleAll .standard x [d, c]).1 ∧
      (p.handleAll .standard x [c, d]).2.session.retained ≠
        (p.handleAll .standard x [d, c]).2.session.retained := by
  obtain ⟨p, hp, -, hsmall⟩ := exists_small
  obtain ⟨⟨session, tree⟩, hx, rfl, hunlocked, r, hr, hwithin⟩ := hsmall.exists_stale
  have hwf : (smallTree [smallApiDir] [smallApiFile]).WellFormed := by decide +kernel
  have hfree : (smallTree [smallApiDir] [smallApiFile]).IsFree p.artifactPlaces :=
    hsmall.isFree hwf (by decide +kernel) (by decide +kernel)
  have hthere : (smallTree [smallApiDir] [smallApiFile]).contentAt? smallApiFile =
      some ByteArray.empty := by decide +kernel
  have hmissing : (smallTree [smallApiDir] [smallApiFile]).contains smallEventPath = false := by
    decide +kernel
  have hsound := hx.sound hsmall.toValid
  have hkept := hsmall.events_of_update_first hsound hunlocked hfree
    (hsmall.react?_apiFile hwf hthere) hr
  have hgone := hsmall.events_of_remove_first hsound hunlocked hfree
    (hsmall.react?_eventDir hmissing) hwithin
  refine ⟨p, _, smallUpdate, smallRemove, hp, hx,
    fun root s f => hsmall.settled hwf (by decide +kernel),
    hsmall.well_handleAll _ hwf hunlocked hfree, hsmall.well_handleAll _ hwf hunlocked hfree,
    fun heq => hgone ?_⟩
  rw [← heq]
  exact hkept

end IpcWiring.Project
