import IpcWiring.Proofs.Build.Fresh

/-!
# Rebuilds and builds from scratch

When a file was made, written or deleted and the session was told of that, it has the working set
and the artifacts of a plan that is made from scratch (`Project.retained_eq_plan`). The working set
of a build is fresh, and a change that is told of keeps it so (`Project.Fresh.of_edited`): it
replaces what is found in the file or drops it, and what is found in other files is what it was.
-/

namespace IpcWiring.Project

variable {p : Project} {t u : FileTree} {w : Writer} {x y : World} {c : Change} {cs : List Change}
  {root : WatchRoot} {s : Scanner} {q f : Path}

/-! ## Trees that differ in one file -/

/-- The trees only differ in whether a file is there and in what is in it. The file lies in no
directory that artifacts go to. -/
structure DifferIn (p : Project) (q : Path) (t u : FileTree) : Prop where
  rooted : q.Rooted
  outside : ∀ dir ∈ p.outputDirs, dir.isWithin q = false
  same : ∀ place, place ≠ q.place → t.entryAt? place = u.entryAt? place
  before : t.isDirectoryAt q.place = false
  after : u.isDirectoryAt q.place = false

/-- A tree on which plans are good, and in which no other file that a scan finds reaches the file.
-/
structure Tidy (p : Project) (q : Path) (t : FileTree) : Prop extends Clean p t where
  wellFormed : t.WellFormed
  ready : p.Ready t
  alone : ∀ root f, p.Scanned t root f → f ≠ q →
    ∀ r, (Disk.ofTree t).Reaches f r → r.place ≠ q.place

section DifferIn

variable (hp : p.Grounded) (h : p.DifferIn q t u)

include h

/-- Other files have the same content. -/
theorem DifferIn.contentAt?_eq {place : Place} (hne : place ≠ q.place) :
    t.contentAt? place = u.contentAt? place := by
  rw [FileTree.contentAt?, FileTree.contentAt?, h.same place hne]

include hp

/-- The file is no artifact. -/
theorem DifferIn.place_not_mem : q.place ∉ p.artifactPlaces := fun hin => by
  obtain ⟨dir, hdir, hwithin⟩ := hp.exists_outputDir h.rooted hin
  rw [h.outside dir hdir] at hwithin
  cases hwithin

/-- Artifacts are read the same. -/
theorem DifferIn.read_eq (ht : t.WellFormed) (hu : u.WellFormed) {set : WorkingSet}
    {g : Emit.GeneratedFile} (hg : g ∈ Emit.generate p.emit set) {content : ByteArray} :
    t.read g.path = .ok content ↔ u.read g.path = .ok content := by
  have hres := (hp.rooted_generate hg).1.resolved.components
  rw [ht.read_eq_ok_iff hres, hu.read_eq_ok_iff hres, h.contentAt?_eq fun heq =>
    h.place_not_mem hp (heq ▸ place_mem_artifactPlaces hg)]

variable (ht : p.Tidy q t) (hu : p.Tidy q u)

include ht hu

/-- A scan finds the same other files. -/
theorem DifferIn.scanned_iff (hne : f ≠ q) : p.Scanned t root f ↔ p.Scanned u root f := by
  rw [hp.scanned_iff ht.wellFormed ht.noIgnore ht.ready,
    hp.scanned_iff hu.wellFormed hu.noIgnore hu.ready]
  refine and_congr_right fun hf => and_congr_left fun _ => ?_
  rw [h.contentAt?_eq fun heq => hne (hf.ext h.rooted heq)]

/-- The same is found in other files. -/
theorem DifferIn.found_eq (hf : p.Scanned t root f) (hne : f ≠ q) :
    p.foundApi t f = p.foundApi u f ∧ foundEvents t f = foundEvents u f := by
  have hf' := (h.scanned_iff hp ht hu hne).1 hf
  have hfull := (ht.rooted hp ht.wellFormed hf).full
  have hsame : ∀ place, place ∉ [q.place] → t.contentAt? place = u.contentAt? place :=
    fun place hnot => h.contentAt?_eq fun heq => hnot (List.mem_singleton.2 heq)
  -- the tree that has the file, if one has, is the one with more files
  by_cases hthere : (u.contentAt? q.place).isSome = true
  · refine found_of_agreeBut ht.wellFormed hu.wellFormed
      (FileTree.agreeBut_of_contentAt? ht.wellFormed hu.wellFormed (fun place hsome => ?_) hsame)
      hfull fun r hreach hin => hu.alone root f hf' hne r hreach (List.mem_singleton.1 hin)
    by_cases heq : place = q.place
    · exact heq ▸ hthere
    · exact h.contentAt?_eq heq ▸ hsome
  · have hfiles : ∀ place, (u.contentAt? place).isSome = true →
        (t.contentAt? place).isSome = true := fun place hsome => by
      rw [h.contentAt?_eq fun heq => hthere (heq ▸ hsome)]
      exact hsome
    obtain ⟨hapi, hevents⟩ := found_of_agreeBut hu.wellFormed ht.wellFormed
      (FileTree.agreeBut_of_contentAt? hu.wellFormed ht.wellFormed hfiles
        fun place hnot => (hsame place hnot).symm)
      hfull fun r hreach hin => ht.alone root f hf hne r hreach (List.mem_singleton.1 hin)
    exact ⟨hapi.symm, hevents.symm⟩

end DifferIn

/-! ## What changes of the file mean -/

/-- The changes are of the file, and there is one for each watched directory that the file lies in.
-/
structure Notified (p : Project) (q : Path) (cs : List Change) : Prop where
  path : ∀ c ∈ cs, c.path.normalize = q
  kind : ∀ c ∈ cs, c.kind ≠ .metadata
  covers : ∀ root s, p.scannerFor? root = some s → s.root.isWithin q = true →
    ∃ c ∈ cs, c.root = root

/-- A file that is to be read again is found by a scan. -/
theorem Tidy.scanned_of_react? (hp : p.Grounded) (hu : p.Tidy q u) (hq : q.Rooted)
    (hreact : p.react? u c = some (.update q)) : p.Scanned u c.root q := by
  obtain ⟨-, hs, hthere, hfile, -⟩ := react?_eq_update_iff.1 hreact
  exact (hp.scanned_iff hu.wellFormed hu.noIgnore hu.ready).2
    ⟨hq, hu.wellFormed.contentAt?_of_contains hq.resolved hthere hfile, hs⟩

/-- A file that a scan finds is to be read again. -/
theorem Tidy.react?_of_scanned (hp : p.Grounded) (hu : p.Tidy q u) (hc : c.path.normalize = q)
    (hkind : c.kind ≠ .metadata) (hscanned : p.Scanned u c.root q) :
    p.react? u c = some (.update q) := by
  obtain ⟨hq, hsome, hs⟩ :=
    (hp.scanned_iff hu.wellFormed hu.noIgnore hu.ready).1 hscanned
  obtain ⟨hthere, hfile⟩ := hu.wellFormed.contains_of_contentAt? hq hsome
  exact react?_eq_update_iff.2 ⟨hc.symm, hs, hthere, hfile, hkind⟩

/-- A file that is gone and would be accepted is to be dropped. -/
theorem react?_of_missing (hu : u.WellFormed) (hq : q.Rooted) (hc : c.path.normalize = q)
    (hs : p.scannerFor? c.root = some s) (haccepts : s.accepts q = true)
    (hnone : u.entryAt? q.place = none) : p.react? u c = some (.remove q) := by
  refine react?_eq_remove_iff.2 ⟨hc.symm, ⟨s, hs, (Scanner.accepts_imp haccepts).2⟩, ?_⟩
  rw [← Bool.not_eq_true, hu.contains_iff hq.resolved.components, hnone]
  exact fun ⟨_, hsome, _⟩ => nomatch hsome

/-! ## Edits of the file -/

section Edits

variable {α : Type} {found : Path → List (Record α)}

/-- The changes drop nothing but the file, or what would be below it. -/
theorem Notified.eq_of_mem_remove (hcs : p.Notified q cs)
    (he : .remove f ∈ cs.flatMap (p.edits u root found)) : f = q := by
  obtain ⟨c, hc, he⟩ := List.mem_flatMap.1 he
  obtain ⟨heq, -⟩ := react?_eq_remove_iff.1 (mem_edits_remove.1 he).2
  rw [heq, hcs.path c hc]

/-- The changes replace just the file, if a scan finds it, by what is found in it. -/
theorem Notified.mem_replace_iff (hp : p.Grounded) (hu : p.Tidy q u) (hq : q.Rooted)
    (hcs : p.Notified q cs) {records : List (Record α)} :
    .replace f records ∈ cs.flatMap (p.edits u root found) ↔
      f = q ∧ p.Scanned u root q ∧ found q = records := by
  constructor
  · intro he
    obtain ⟨c, hc, he⟩ := List.mem_flatMap.1 he
    obtain ⟨rfl, hreact, hrecords⟩ := mem_edits_replace.1 he
    obtain rfl : f = q := by rw [(react?_eq_update_iff.1 hreact).1, hcs.path c hc]
    exact ⟨rfl, hu.scanned_of_react? hp hq hreact, hrecords⟩
  · rintro ⟨rfl, hscanned, hrecords⟩
    obtain ⟨-, -, s, hs, haccepts⟩ :=
      (hp.scanned_iff hu.wellFormed hu.noIgnore hu.ready).1 hscanned
    obtain ⟨c, hc, rfl⟩ := hcs.covers root s hs (Scanner.accepts_imp haccepts).1
    exact List.mem_flatMap.2 ⟨c, hc, mem_edits_replace.2 ⟨rfl,
      hu.react?_of_scanned hp (hcs.path c hc) (hcs.kind c hc) hscanned, hrecords⟩⟩

/-- The changes drop the file if it was found and is not any more. -/
theorem Notified.remove_mem (hp : p.Grounded) (ht : p.Tidy q t) (hu : p.Tidy q u)
    (h : p.DifferIn q t u) (hcs : p.Notified q cs) (hbefore : p.Scanned t root q)
    (hafter : ¬ p.Scanned u root q) : .remove q ∈ cs.flatMap (p.edits u root found) := by
  obtain ⟨hq, -, s, hs, haccepts⟩ :=
    (hp.scanned_iff ht.wellFormed ht.noIgnore ht.ready).1 hbefore
  have hnone : u.entryAt? q.place = none := by
    rw [← Option.not_isSome_iff_eq_none, FileTree.isSome_entryAt?_iff, h.after]
    rintro (hdir | hsome)
    · cases hdir
    · exact hafter ((hp.scanned_iff hu.wellFormed hu.noIgnore hu.ready).2
        ⟨hq, hsome, s, hs, haccepts⟩)
  obtain ⟨c, hc, rfl⟩ := hcs.covers root s hs (Scanner.accepts_imp haccepts).1
  exact List.mem_flatMap.2 ⟨c, hc, mem_edits_remove.2 ⟨rfl,
    react?_of_missing hu.wellFormed hq (hcs.path c hc) hs haccepts hnone⟩⟩

/-- The changes drop no other file that was found. -/
theorem Notified.not_drops (hp : p.Grounded) (ht : p.Tidy q t) (hu : p.Tidy q u)
    (h : p.DifferIn q t u) (hcs : p.Notified q cs) (hf : p.Scanned t root f) (hne : f ≠ q)
    {e : Record.Edit α} (he : e ∈ cs.flatMap (p.edits u root found)) : ¬ e.Drops f := by
  obtain ⟨hrooted, hsome, -⟩ := (hp.scanned_iff ht.wellFormed ht.noIgnore ht.ready).1 hf
  cases e with
  | remove dir =>
    obtain rfl := hcs.eq_of_mem_remove he
    -- a file lies in no other file
    intro hwithin
    have hdir := ht.wellFormed.isDirectoryAt_of_prefix ((h.rooted.isWithin_iff hrooted).1 hwithin)
      (fun heq => hne (h.rooted.ext hrooted heq).symm) (FileTree.isSome_entryAt?_iff.2 (.inr hsome))
    rw [h.before] at hdir
    cases hdir
  | replace path records =>
    obtain ⟨rfl, -⟩ := (hcs.mem_replace_iff hp hu h.rooted).1 he
    exact fun heq => hne (h.rooted.resolved.eq_of_components_eq hrooted.resolved heq).symm

/-- Records that are what is found in each file that a scan finds are so again after the changes. -/
theorem Notified.mem_foldl_iff [Named α] {found' : Path → List (Record α)} (hp : p.Grounded)
    (ht : p.Tidy q t) (hu : p.Tidy q u) (h : p.DifferIn q t u) (hcs : p.Notified q cs)
    (hpath : ∀ f, ∀ r ∈ found f, r.path = f) {records : List (Record α)}
    (hsorted : Record.IsSorted records)
    (hcompatible : Record.Compatible (cs.flatMap (p.edits u root found')))
    (hsame : ∀ f, p.Scanned t root f → f ≠ q → found f = found' f)
    (hfresh : ∀ r, r ∈ records ↔ ∃ f, p.Scanned t root f ∧ ∃ s ∈ found f, s.sortEntries = r)
    (r : Record α) : r ∈ (cs.flatMap (p.edits u root found')).foldl Record.Edit.apply records ↔
      ∃ f, p.Scanned u root f ∧ ∃ s ∈ found' f, s.sortEntries = r := by
  rw [Record.mem_foldl_apply hsorted hcompatible, hfresh]
  constructor
  · rintro (⟨e, he, s, hs, rfl⟩ | ⟨⟨f, hf, s, hs, rfl⟩, hkept⟩)
    · cases e with
      | remove => cases hs
      | replace path records =>
        obtain ⟨-, hscanned, rfl⟩ := (hcs.mem_replace_iff hp hu h.rooted).1 he
        exact ⟨q, hscanned, s, hs, rfl⟩
    · rw [Record.path_sortEntries, hpath f s hs] at hkept
      by_cases heq : f = q
      · subst heq
        by_cases hafter : p.Scanned u root f
        · exact absurd rfl (hkept _
            ((hcs.mem_replace_iff hp hu h.rooted).2 ⟨rfl, hafter, rfl⟩))
        · exact absurd (Path.isWithin_refl f)
            (hkept _ (hcs.remove_mem hp ht hu h hf hafter))
      · exact ⟨f, (h.scanned_iff hp ht hu heq).1 hf, s, hsame f hf heq ▸ hs, rfl⟩
  · rintro ⟨f, hf, s, hs, rfl⟩
    by_cases heq : f = q
    · subst heq
      exact .inl ⟨_, (hcs.mem_replace_iff hp hu h.rooted).2 ⟨rfl, hf, rfl⟩, s, hs, rfl⟩
    · have hbefore := (h.scanned_iff hp ht hu heq).2 hf
      rw [← hsame f hbefore heq] at hs
      refine .inr ⟨⟨f, hbefore, s, hs, rfl⟩, fun e he => ?_⟩
      rw [Record.path_sortEntries, hpath f s hs]
      exact hcs.not_drops hp ht hu h hbefore heq he

end Edits

/-! ## What is retained -/

/-- Where all artifacts are there a change of another file is clear of them. -/
theorem clearOf_of_isSome (hu : u.WellFormed)
    (hthere : ∀ place ∈ p.artifactPlaces, (u.contentAt? place).isSome = true)
    (hnot : c.path.normalize.place ∉ p.artifactPlaces)
    (hfile : u.isDirectoryAt c.path.normalize.place = false) : p.ClearOf u c := by
  intro s _ _ _ place hplace hpre
  have hdir := hu.isDirectoryAt_of_prefix hpre (fun heq => hnot (heq ▸ hplace))
    (FileTree.isSome_entryAt?_iff.2 (.inr (hthere place hplace)))
  rw [hfile] at hdir
  cases hdir

/-- Where all artifacts are there a file that reaches none does so when they are written again. -/
theorem Clean.settled (hp : p.Grounded) (hu : u.WellFormed) (hclean : p.Clean u)
    (hthere : ∀ place ∈ p.artifactPlaces, (u.contentAt? place).isSome = true)
    (hf : p.Scanned u root f) : p.Settled u f := by
  intro v hv r hreach
  have hagree : Disk.AgreeBut (fun r => r.place ∈ p.artifactPlaces) (.ofTree v) (.ofTree u) := by
    refine FileTree.agreeBut_of_contentAt? hv.wellFormed hu (fun place hsome => ?_)
      fun place hnot => (hv.contentAt?_eq hnot).symm
    by_cases hin : place ∈ p.artifactPlaces
    · exact hthere place hin
    · rw [hv.contentAt?_eq hin]
      exact hsome
  have hclear := hclean.apart root f hf
  exact hclear r ((hagree.reaches_iff hu.lawful (hclean.rooted hp hu hf).full hclear).1 hreach)

/-- After changes of the file a fresh working set is so again. -/
theorem Fresh.of_edited (hp : p.Grounded) (ht : p.Tidy q t) (hu : p.Tidy q u)
    (h : p.DifferIn q t u) (hcs : p.Notified q cs) (hclear : ∀ c ∈ cs, p.ClearOf u c)
    {set set' : WorkingSet} (hset : p.Fresh t set) (he : p.EditedAll u cs set set') :
    p.Fresh u set' := by
  have hapi : Record.Compatible (cs.flatMap (p.apiEdits u)) :=
    compatible_of_clearOf hu.wellFormed (isDistinct_foundApi p u)
      (fun _ _ => path_of_mem_extractFiles) hclear
  have hevents : Record.Compatible (cs.flatMap (p.eventEdits u)) :=
    compatible_of_clearOf hu.wellFormed (isDistinct_foundEvents u)
      (fun _ _ => path_of_mem_extractFiles) hclear
  refine ⟨⟨?_, ?_⟩, fun r => ?_, fun r => ?_, ?_⟩
  · rw [he.api]
    exact hset.sorted.api.foldl_apply hapi
  · rw [he.events]
    exact hset.sorted.events.foldl_apply hevents
  · rw [he.api]
    exact hcs.mem_foldl_iff hp ht hu h (fun _ _ => path_of_mem_extractFiles) hset.sorted.api hapi
      (fun f hf hne => (h.found_eq hp ht hu hf hne).1) hset.api r
  · rw [he.events]
    exact hcs.mem_foldl_iff hp ht hu h (fun _ _ => path_of_mem_extractFiles) hset.sorted.events
      hevents (fun f hf hne => (h.found_eq hp ht hu hf hne).2) hset.events r
  · rw [he.isSome, hset.isSome]
    cases hany : (cs.flatMap (p.eventEdits u)).any replaces with
    | false => exact Bool.or_false _
    | true =>
      obtain ⟨e, hin, hreplaces⟩ := List.any_eq_true.1 hany
      cases e with
      | remove => cases hreplaces
      | replace path records =>
        obtain ⟨c, -, hin⟩ := List.mem_flatMap.1 hin
        obtain ⟨s, hs, -⟩ := accepts_of_mem_edits hin
        obtain ⟨dir, hdir, -⟩ := Option.map_eq_some_iff.1 hs
        rw [hdir]
        rfl

/-- A session that was built while there were functions, one file that was made, written or deleted
after that, and the changes that tell of that. -/
structure Rebuild (p : Project) (x y : World) (t : FileTree) (q : Path) (cs : List Change) :
    Prop where
  tree : x.tree.WellFormed
  built : ∃ w out, w.dryRun = false ∧ p.build w x = (.ok out, y)
  scanned : ∃ f, p.Scanned x.tree .api f
  before : p.Tidy q y.tree
  after : p.Tidy q t
  rescanned : ∃ f, p.Scanned t .api f
  differ : p.DifferIn q y.tree t
  notified : p.Notified q cs

/-- The directory of functions can be scanned if there are some. -/
theorem Scanned.exists_scan (h : p.Scanned t .api f) :
    ∃ paths, p.apiScanner.scan t = .ok paths ∧ paths ≠ [] := by
  obtain ⟨s, paths, hs, hscan, hf⟩ := h
  obtain rfl := Option.some.inj hs
  exact ⟨paths, hscan, List.ne_nil_of_mem hf⟩

/-- The working set of the build is consistent. -/
theorem Rebuild.consistent (hp : p.Valid) (h : p.Rebuild x y t q cs) :
    p.Consistent y.session.retained := by
  obtain ⟨w, out, -, hbuild⟩ := h.built
  have hset := isConsistent_of_build hp h.tree (congrArg Prod.fst hbuild)
  rwa [hbuild] at hset

/-- After the build the working set is fresh and the artifacts are current. -/
theorem Rebuild.fresh (hp : p.Grounded) (h : p.Rebuild x y t q cs) (hready : p.Ready x.tree) :
    p.Fresh y.tree y.session.retained ∧ p.Current y := by
  obtain ⟨w, out, hw, hbuild⟩ := h.built
  obtain ⟨f, hf⟩ := h.scanned
  obtain ⟨paths, hscan, hne⟩ := hf.exists_scan
  have hwritten := hp.writtenAt_build h.tree w
  obtain ⟨hplanned, hcurrent⟩ :=
    hp.planned_of_build h.tree hw (congrArg Prod.fst hbuild) hscan hne
  rw [hbuild] at hwritten hplanned hcurrent
  have hclean := h.before.toClean.of_writtenAt hp h.tree hwritten hready
  exact ⟨(hplanned.fresh hp h.tree hclean hready hscan).of_writtenAt hp h.tree hwritten hready
    h.before.toClean, hcurrent⟩

/-- **Rebuilds agree with builds.** When a file was made, written or deleted after a build, and the
changes that tell of that were handled, the session has the working set of a plan from scratch, and
the artifacts are just the files of that plan. The watched directories must have been there when the
build ran: one that the build itself makes, for the sake of its artifacts, was not scanned. -/
theorem retained_eq_plan {base : Path} {config : Config} (hp : ofConfig base config = .ok p)
    (hbase : base.isAbsolute = true) (hclimbs : p.climbs = false) (h : p.Rebuild x y t q cs)
    (hready : p.Ready x.tree) (hw : w.dryRun = false)
    (hwell : AllWell (p.handleAll w ⟨y.session, t⟩ cs).1) :
    ∃ plan, p.plan t = .ok plan ∧
      (p.handleAll w ⟨y.session, t⟩ cs).2.session.retained = plan.workingSet ∧
      (∀ f ∈ plan.files,
        (p.handleAll w ⟨y.session, t⟩ cs).2.tree.read f.path = .ok f.text.toUTF8) ∧
      ∀ place ∈ p.artifactPlaces, ∃ f ∈ plan.files, f.path.place = place := by
  have hgrounded := grounded_of_ofConfig hp hbase hclimbs
  have hafter := h.after.wellFormed
  obtain ⟨hfresh, hcurrent⟩ := h.fresh hgrounded hready
  -- the artifacts are as the build left them
  have hcurrent' : p.Current ⟨y.session, t⟩ := fun f hf =>
    (h.differ.read_eq hgrounded h.before.wellFormed hafter hf).1 (hcurrent f hf)
  have hthere : ∀ place ∈ p.artifactPlaces, (t.contentAt? place).isSome = true := fun place hin =>
    hgrounded.contentAt?_of_current (x := ⟨y.session, t⟩) hafter hcurrent' hfresh.isSome hin
  have hclear : ∀ c ∈ cs, p.ClearOf t c := fun c hc => by
    have hpath := h.notified.path c hc
    exact clearOf_of_isSome hafter hthere (hpath ▸ h.differ.place_not_mem hgrounded)
      (hpath ▸ h.differ.after)
  have hsettled : ∀ c ∈ cs, ∀ f, p.react? t c = some (.update f) → p.Settled t f :=
    fun c hc f hf => by
      obtain rfl : f = q := by rw [(react?_eq_update_iff.1 hf).1, h.notified.path c hc]
      exact h.after.toClean.settled hgrounded hafter hthere
        (h.after.scanned_of_react? hgrounded h.differ.rooted hf)
  -- so the changes make their edits, and the working set stays fresh
  have hconsistent := h.consistent hgrounded.toValid
  have hedited := edited_handleAll (x := ⟨y.session, t⟩) hgrounded.toValid
    (full_of_ofConfig hp hbase) hafter hclear hsettled (hafter.writtenAt _) hconsistent hwell
  have hrefreshed := hfresh.of_edited hgrounded h.before h.after h.differ h.notified hclear hedited
  obtain ⟨f, hf⟩ := h.rescanned
  obtain ⟨paths, hscan, hne⟩ := hf.exists_scan
  obtain ⟨plan, hplan, hplanned, hfiles⟩ := exists_plan hgrounded.toValid hafter hscan hne
  have heq := hrefreshed.eq
    (hplanned.fresh hgrounded hafter h.after.toClean h.after.ready hscan)
  refine ⟨plan, hplan, heq, fun f hf => ?_, fun place hin => ?_⟩
  · rw [hfiles, ← heq] at hf
    exact hgrounded.current_of_handleAll hw cs hafter hcurrent' hwell f hf
  · rw [hfiles, ← heq]
    exact exists_generate_of_mem_artifactPlaces hgrounded.toValid hrefreshed.isSome hin

/-! ## The small project -/

/-- The files of a tree are artifacts and empty sources. -/
def SmallFiles (t : FileTree) : Prop :=
  ∀ place, (t.contentAt? place).isSome = true →
    place ∈ smallArtifacts ∨ place ∈ smallSources ∧ t.contentAt? place = some ByteArray.empty

/-- Artifacts and empty sources are no ignore files. -/
theorem SmallFiles.hasIgnoreFiles (h : SmallFiles t) (ht : t.WellFormed) :
    t.hasIgnoreFiles = false := by
  have hnone : ∀ place ∈ smallArtifacts ++ smallSources,
      FileTree.ignoreFiles.any (·.isSuffixOf place) = false := by decide
  rw [FileTree.hasIgnoreFiles, List.any_eq_false]
  rintro ⟨place, content⟩ hin
  have hplace := h place (by rw [ht.mem_files_iff.1 hin]; rfl)
  exact Bool.eq_false_iff.1 (hnone place (List.mem_append.2 (hplace.imp_right And.left)))

/-- Writing artifacts leaves artifacts and empty sources. -/
theorem SmallFiles.of_writtenAt (h : SmallFiles t) (hw : FileTree.WrittenAt smallArtifacts t u) :
    SmallFiles u := by
  intro place hsome
  by_cases hin : place ∈ smallArtifacts
  · exact .inl hin
  · rw [← hw.contentAt?_eq hin] at hsome ⊢
    exact h place hsome

/-- Nothing but a file itself is reached from it. -/
theorem Small.tidy (hp : p.Small) (ht : t.WellFormed) (h : SmallFiles t) (hready : p.Ready t)
    (hq : q.Rooted) : p.Tidy q t := by
  have hread : ∀ root f, p.Scanned t root f → f.Rooted ∧ f.place ∉ p.artifactPlaces ∧
      ((Disk.ofTree t).read f).isSome = true ∧ ∀ r, (Disk.ofTree t).Reaches f r → r = f :=
    fun root f hf => by
      obtain ⟨hrooted, hsome, s, hs, haccepts⟩ :=
        (hp.scanned_iff ht (h.hasIgnoreFiles ht) hready).1 hf
      have hnot := hp.place_not_mem_of_accepts hrooted hs haccepts
      obtain ⟨hin, hc⟩ := (h _ hsome).resolve_left (hp.artifactPlaces_eq ▸ hnot)
      obtain ⟨-, -, m, hm, hnone⟩ := exists_read_small ht hin hc
      rw [← hrooted.eq_pathOf] at hm hnone
      exact ⟨hrooted, hnot, by rw [hm]; rfl, fun r => Disk.eq_of_reaches hnone⟩
  refine ⟨⟨h.hasIgnoreFiles ht, fun root f hf r hr => ?_, fun root f hf r hr => ?_⟩, ht, hready,
    fun root f hf hne r hr hplace => ?_⟩
  · obtain ⟨-, -, hsome, honly⟩ := hread root f hf
    rw [honly r hr]
    exact hsome
  · obtain ⟨-, hnot, -, honly⟩ := hread root f hf
    rw [honly r hr]
    exact hnot
  · obtain ⟨hrooted, -, -, honly⟩ := hread root f hf
    exact hne (hrooted.ext hq (honly r hr ▸ hplace))

/-- The watched directories of the small project. -/
theorem Small.ready (hp : p.Small) (hapi : t.isDirectoryAt smallApiDir = true)
    (hevents : t.isDirectoryAt smallEventDir = true) : p.Ready t := by
  intro root s hs
  cases root with
  | api =>
    rw [← Option.some.inj hs, hp.apiDir]
    exact hapi
  | events =>
    obtain ⟨s', hs', hdir, -⟩ := hp.events
    rw [Option.some.inj (hs.symm.trans hs'), hdir]
    exact hevents

/-- Where the artifacts are current, the directory of events is there, for the sake of one of them.
-/
theorem Small.isDirectoryAt_eventDir (hp : p.Small) (h : x.tree.WellFormed)
    (hcurrent : p.Current x) : x.tree.isDirectoryAt smallEventDir = true := by
  have hin : Emit.Artifact.handlers ∈ Emit.artifactsOf x.session.retained :=
    List.mem_append_left _ (by decide)
  obtain ⟨f, hf, hpath⟩ := exists_generate (p := p) hin rfl
  have hread := hcurrent f hf
  rw [h.read_eq_ok_iff (hp.rooted_generate hf).1.resolved.components, hpath, hp.handlers] at hread
  refine h.isDirectoryAt_of_append (List.cons_ne_nil "ipc" ["handlers.ts"])
    (FileTree.isSome_entryAt?_iff.2 (.inr ?_))
  rw [hread.2]
  rfl

/-- A tree of directories and empty files has small files if it has no others. -/
theorem smallFiles_smallTree {dirs files : List Place} (h : (smallTree dirs files).WellFormed)
    (hfiles : files ⊆ smallSources) : SmallFiles (smallTree dirs files) := by
  intro place hsome
  obtain ⟨content, hc⟩ := Option.isSome_iff_exists.1 hsome
  have hin := h.mem_files_iff.2 hc
  simp only [FileTree.files, smallTree, List.mem_filterMap, List.mem_append, List.mem_map] at hin
  obtain ⟨_, ⟨dir, -, rfl⟩ | ⟨file, hfile, rfl⟩, heq⟩ := hin
  · cases heq
  · cases heq
    exact .inr ⟨hfiles hfile, hc⟩

/-- The path of the other file for functions. -/
def smallOtherPath : Path := FileTree.pathOf smallOtherFile

/-- The change that tells of the other file. -/
def smallChange : Change := ⟨.content, smallOtherPath, .api⟩

/-- The tree with the other file. -/
def withOtherFile (t : FileTree) : FileTree := t.put smallOtherFile (.file ByteArray.empty)

/-- The path leads down from the root to the other file. -/
theorem rooted_smallOtherPath : smallOtherPath.Rooted ∧ smallOtherPath.place = smallOtherFile :=
  Path.rooted_pathOf (by decide)

/-- What stands where when the other file was made. -/
theorem entryAt?_withOtherFile (t : FileTree) (place : Place) :
    (withOtherFile t).entryAt? place =
      if place = smallOtherFile then some (.file ByteArray.empty) else t.entryAt? place :=
  FileTree.entryAt?_put (List.cons_ne_nil _ _) _ place

/-- The other file is an empty source. -/
theorem SmallFiles.withOtherFile (h : SmallFiles t) : SmallFiles (withOtherFile t) := by
  intro place hsome
  have hentry := entryAt?_withOtherFile t place
  by_cases heq : place = smallOtherFile
  · rw [if_pos heq] at hentry
    subst heq
    exact .inr ⟨by decide, FileTree.contentAt?_eq_some.2 hentry⟩
  · rw [if_neg heq] at hentry
    rw [FileTree.contentAt?, hentry] at hsome ⊢
    exact h place hsome

/-- Making the other file is writing at its place. -/
theorem writtenAt_withOtherFile (ht : t.WellFormed) (hdir : t.isDirectoryAt smallApiDir = true)
    (hfile : t.isDirectoryAt smallOtherFile = false) :
    FileTree.WrittenAt [smallOtherFile] t (withOtherFile t) := by
  have htakes : t.Takes smallOtherFile := ⟨by decide, List.cons_ne_nil _ _, hdir⟩
  exact ht.writtenAt_put_file htakes hfile _

/-- Making the other file makes a difference there only. -/
theorem Small.differIn (hp : p.Small) (hfile : t.isDirectoryAt smallOtherFile = false) :
    p.DifferIn smallOtherPath t (withOtherFile t) := by
  refine ⟨rooted_smallOtherPath.1, isWithin_eq_false_of_accepts .api rfl hp.otherFile,
    fun place hne => ?_, ?_, ?_⟩
  · rw [rooted_smallOtherPath.2] at hne
    rw [entryAt?_withOtherFile, if_neg hne]
  · rw [rooted_smallOtherPath.2, hfile]
  · rw [rooted_smallOtherPath.2, FileTree.isDirectoryAt, entryAt?_withOtherFile, if_pos rfl]

/-- The change tells of the other file, which lies in the directory of functions only. -/
theorem Small.notified (hp : p.Small) : p.Notified smallOtherPath [smallChange] := by
  obtain ⟨hrooted, hplace⟩ := rooted_smallOtherPath
  refine ⟨fun c hc => ?_, fun c hc => ?_, fun root s hs hwithin => ?_⟩
  · rw [List.mem_singleton.1 hc]
    exact hrooted.resolved.normalize_eq
  · rw [List.mem_singleton.1 hc]
    exact nofun
  · cases root with
    | api => exact ⟨smallChange, List.mem_cons_self, rfl⟩
    | events =>
      obtain ⟨s', hs', hdir, -⟩ := hp.events
      obtain rfl := Option.some.inj (hs.symm.trans hs')
      rw [(hp.rooted_scanner hs).isWithin_iff hrooted, hdir, hplace] at hwithin
      have hnot : ¬ smallEventDir <+: smallOtherFile := by decide
      exact absurd hwithin hnot

/-- A build of the small project, with another file for functions made after it. -/
theorem Small.exists_rebuild (hp : p.Small) (h : x.tree.WellFormed)
    (hunlocked : x.session.locked = false) (hsmall : SmallFiles x.tree)
    (hc : x.tree.contentAt? smallApiFile = some ByteArray.empty)
    (hfree : x.tree.IsFree (smallOtherFile :: p.artifactPlaces)) :
    ∃ paths y, p.Planned x.tree paths y.session.retained ∧
      p.Rebuild x y (withOtherFile y.tree) smallOtherPath [smallChange] ∧
      AllWell (p.handleAll .standard ⟨y.session, withOtherFile y.tree⟩ [smallChange]).1 := by
  obtain ⟨paths, hscan, hne⟩ := hp.exists_scan h (hsmall.hasIgnoreFiles h) hc
  obtain ⟨f, hf⟩ := List.exists_mem_of_ne_nil paths hne
  obtain ⟨out, hbuild, hplanned, hfreed⟩ :=
    hp.exists_build h hunlocked (hfree.mono (List.subset_cons_self _ _)) hscan hne
  have hcurrent := (hp.planned_of_build h rfl hbuild hscan hne).2
  have hwritten := hp.writtenAt_build h .standard
  have hbuilt : p.build .standard x = (.ok out, (p.build .standard x).2) := Prod.ext hbuild rfl
  generalize (p.build .standard x).2 = y at hplanned hfreed hcurrent hwritten hbuilt
  -- the other file is made where nothing is
  have hapi : y.tree.isDirectoryAt smallApiFile.dropLast = true :=
    hwritten.directories _
      (h.isDirectoryAt_dropLast (FileTree.isSome_entryAt?_iff.2 (.inr (by rw [hc]; rfl))))
  have hevents := hp.isDirectoryAt_eventDir hwritten.wellFormed hcurrent
  have hclear := hfree.of_writtenAt (hwritten.mono (List.subset_cons_self smallOtherFile _))
  have hfile := hclear.here smallOtherFile List.mem_cons_self
  have hmade := writtenAt_withOtherFile hwritten.wellFormed hapi hfile
  have hstill := hclear.of_writtenAt
    (hmade.mono (List.cons_subset.2 ⟨List.mem_cons_self, List.nil_subset _⟩))
  have hsmall' := hsmall.of_writtenAt (hp.artifactPlaces_eq ▸ hwritten)
  have hready := hp.ready hapi hevents
  have hready' := hp.ready (hmade.directories _ hapi) (hmade.directories _ hevents)
  have hrooted := rooted_smallOtherPath.1
  have hafter := hp.tidy hmade.wellFormed hsmall'.withOtherFile hready' hrooted
  refine ⟨paths, y, hplanned, ⟨h, ⟨.standard, out, rfl, hbuilt⟩, ⟨f, _, paths, rfl, hscan, hf⟩,
    hp.tidy hwritten.wellFormed hsmall' hready hrooted, hafter, ⟨smallOtherPath, ?_⟩,
    hp.differIn hfile, hp.notified⟩, ?_⟩
  · refine (hp.scanned_iff hafter.wellFormed hafter.noIgnore hafter.ready).2
      ⟨hrooted, ?_, _, rfl, hp.otherFile⟩
    rw [rooted_smallOtherPath.2, FileTree.contentAt?, entryAt?_withOtherFile, if_pos rfl]
    rfl
  · exact hp.well_handleAll _ hmade.wellFormed hfreed (hstill.mono (List.subset_cons_self _ _))

/-- So it is when a file for functions is made after a build. -/
theorem retained_eq_plan_small : ∃ p x y t q cs, ofConfig ⟨"/proj"⟩ smallConfig = .ok p ∧
    p.Rebuild x y t q cs ∧ p.Ready x.tree ∧ ∃ plan, p.plan t = .ok plan ∧
      (p.handleAll .standard ⟨y.session, t⟩ cs).2.session.retained = plan.workingSet ∧
      (∀ f ∈ plan.files,
        (p.handleAll .standard ⟨y.session, t⟩ cs).2.tree.read f.path = .ok f.text.toUTF8) ∧
      ∀ place ∈ p.artifactPlaces, ∃ f ∈ plan.files, f.path.place = place := by
  obtain ⟨p, hp, hclimbs, hsmall⟩ := exists_small
  let x : World := ⟨.initial, smallTree [smallApiDir, smallEventDir] [smallApiFile]⟩
  have hwf : x.tree.WellFormed := by decide +kernel
  have hfree : x.tree.IsFree (smallOtherFile :: p.artifactPlaces) := by
    rw [hsmall.artifactPlaces_eq]
    exact hwf.isFree (by decide +kernel) (by decide +kernel) (by decide +kernel)
  have hready : p.Ready x.tree := hsmall.ready (by decide +kernel) (by decide +kernel)
  obtain ⟨paths, y, -, hrebuild, hwell⟩ := hsmall.exists_rebuild hwf rfl
    (smallFiles_smallTree hwf (by decide)) (by decide +kernel) hfree
  exact ⟨p, x, y, _, _, _, hp, hrebuild, hready,
    retained_eq_plan hp (by decide) hclimbs hrebuild hready rfl hwell⟩

/-- No events are planned where their directory is missing. -/
theorem Small.events?_eq_none (hp : p.Small) (h : t.WellFormed)
    (hmissing : t.isDirectoryAt smallEventDir = false) {paths : List Path} {set : WorkingSet}
    (hset : p.Planned t paths set) : set.events? = none := by
  refine (hset.events?_eq hp.toValid h).resolve_right fun ⟨s, _, hs, hscan, _⟩ => ?_
  have hdir := ((Scanner.scan_eq_ok_iff h (hp.resolved_eventScanner hs)).1 hscan).2.1
  obtain ⟨s', hs', hplace, -⟩ := hp.events
  obtain rfl := Option.some.inj (hs.symm.trans hs')
  rw [hplace, hmissing] at hdir
  cases hdir

/-- A session that was built when the directory of events was missing goes without events when a
file for functions is made, though the build itself made the directory. -/
theorem missing_directory_matters_small : ∃ p x y t q cs,
    ofConfig ⟨"/proj"⟩ smallConfig = .ok p ∧ p.climbs = false ∧ p.Rebuild x y t q cs ∧
      AllWell (p.handleAll .standard ⟨y.session, t⟩ cs).1 ∧ ∃ plan, p.plan t = .ok plan ∧
        (p.handleAll .standard ⟨y.session, t⟩ cs).2.session.retained ≠ plan.workingSet := by
  obtain ⟨p, hp, hclimbs, hsmall⟩ := exists_small
  let x : World := ⟨.initial, smallTree [smallApiDir] [smallApiFile]⟩
  have hwf : x.tree.WellFormed := by decide +kernel
  have hfree : x.tree.IsFree (smallOtherFile :: p.artifactPlaces) := by
    rw [hsmall.artifactPlaces_eq]
    exact hwf.isFree (by decide +kernel) (by decide +kernel) (by decide +kernel)
  obtain ⟨paths, y, hplanned, hrebuild, hwell⟩ := hsmall.exists_rebuild hwf rfl
    (smallFiles_smallTree hwf (by decide)) (by decide +kernel) hfree
  -- no events are retained, as their directory was missing when they were planned
  have hnone := hsmall.events?_eq_none hwf (by decide +kernel) hplanned
  have hedited := edited_of_change (x := ⟨y.session, withOtherFile y.tree⟩)
    (hrebuild.consistent hsmall.toValid).sorted
    fun o ho => hwell o (List.mem_singleton.1 ho ▸ List.mem_cons_self)
  obtain ⟨f, hf⟩ := hrebuild.rescanned
  obtain ⟨paths', hscan, hne⟩ := hf.exists_scan
  have hafter := hrebuild.after
  obtain ⟨plan, hplan, hplanned', -⟩ := exists_plan hsmall.toValid hafter.wellFormed hscan hne
  have hfresh := hplanned'.fresh hsmall.toGrounded hafter.wellFormed hafter.toClean hafter.ready
    hscan
  refine ⟨p, x, y, _, _, _, hp, hclimbs, hrebuild, hwell, plan, hplan, fun heq => ?_⟩
  have hlost := hedited.isSome
  have hlast : (p.handleAll .standard ⟨y.session, withOtherFile y.tree⟩ [smallChange]).2 =
      (p.handleChange .standard ⟨y.session, withOtherFile y.tree⟩ smallChange).2 := rfl
  obtain ⟨s, hs, -⟩ := hsmall.events
  obtain ⟨dir, hdir, -⟩ := Option.map_eq_some_iff.1 hs
  rw [← hlast, heq, hfresh.isSome, hnone, hdir] at hlost
  cases hlost

end IpcWiring.Project
