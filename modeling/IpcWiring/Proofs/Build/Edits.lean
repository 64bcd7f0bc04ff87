import IpcWiring.Proofs.Build.Disk
import IpcWiring.Proofs.Build.Run
import IpcWiring.Proofs.Files.Scanning
import IpcWiring.Proofs.WorkingSet.Edits

/-!
# Changes as edits

A change that means something edits the records of its kind: it removes those of a path, or replaces
those of a file by what is found in the file (`Project.edits`). On a sorted working set a change
does just its edits (`Project.edited_of_next?`), and does nothing where it is ignored
(`Project.edited_of_none`). The edits of any changes are compatible unless a removed directory holds
a file that is read again (`Project.compatible_edits`).
-/

namespace IpcWiring.Project

variable {p : Project} {t : FileTree} {c : Change} {q : Path}

/-! ## Reactions -/

/-- Just what a path that is gone means: its records go, unless artifacts go there. -/
theorem react?_eq_remove_iff : p.react? t c = some (.remove q) ↔ q = c.path.normalize ∧
    (∃ s, p.scannerFor? c.root = some s ∧ s.isExcluded q = false) ∧ t.contains q = false := by
  rw [react?]
  cases hs : p.scannerFor? c.root with
  | none => simp
  | some s =>
    rw [Option.bind_eq_bind, Option.bind_some]
    dsimp only
    constructor
    · intro h
      split at h
      · cases h
      split at h
      · next hnot hmissing =>
        cases h
        exact ⟨rfl, ⟨s, rfl, by simpa using hnot⟩, by simpa using hmissing⟩
      split at h
      · cases h
      split at h <;> cases h
    · rintro ⟨rfl, ⟨s', hs', hnot⟩, hmissing⟩
      cases hs'
      simp [hnot, hmissing]

/-- Just what a file means that is there: it is read again, if its scanner accepts it. -/
theorem react?_eq_update_iff : p.react? t c = some (.update q) ↔ q = c.path.normalize ∧
    (∃ s, p.scannerFor? c.root = some s ∧ s.accepts q = true) ∧ t.contains q = true ∧
      t.isDirectory q = false ∧ c.kind ≠ .metadata := by
  rw [react?]
  cases hs : p.scannerFor? c.root with
  | none => simp
  | some s =>
    rw [Option.bind_eq_bind, Option.bind_some]
    dsimp only
    constructor
    · intro h
      split at h
      · cases h
      split at h
      · cases h
      split at h
      · cases h
      split at h
      · next hthere hfile haccepts =>
        cases h
        simp only [Bool.or_eq_true, beq_iff_eq, not_or, Bool.not_eq_true] at hfile
        exact ⟨rfl, ⟨s, rfl, haccepts⟩, by simpa using hthere, hfile⟩
      · cases h
    · rintro ⟨rfl, ⟨s', hs', haccepts⟩, hthere, hfile, hkind⟩
      cases hs'
      simp [(Scanner.accepts_imp haccepts).2, hthere, hfile, hkind, haccepts]

/-- A directory that is there means nothing. -/
theorem react?_of_isDirectory (h : t.isDirectory c.path.normalize = true) :
    p.react? t c = none := by
  have hthere : t.contains c.path.normalize = true := by
    rw [FileTree.isDirectory] at h
    rw [FileTree.contains]
    cases hl : t.locate c.path.normalize with
    | ok place => rfl
    | error e => rw [hl] at h; cases h
  refine Option.eq_none_iff_forall_ne_some.2 fun r hr => ?_
  cases r with
  | remove q =>
    obtain ⟨rfl, -, hmissing⟩ := react?_eq_remove_iff.1 hr
    rw [hthere] at hmissing
    cases hmissing
  | update q =>
    obtain ⟨rfl, -, -, hfile, -⟩ := react?_eq_update_iff.1 hr
    rw [h] at hfile
    cases hfile

/-! ## What is found in one file -/

/-- The functions of one file. -/
def foundApi (p : Project) (t : FileTree) (q : Path) : List ApiRecord :=
  (extractFiles (program t [q]) (apiFunctions p.rules (program t [q])) [q]).records

/-- The events of one file. -/
def foundEvents (t : FileTree) (q : Path) : List EventRecord :=
  (extractFiles (program t [q]) (apiEvents (program t [q])) [q]).records

/-- A single path is like no other one. -/
theorem pairwise_singleton (q : Path) : [q].Pairwise fun p q => p.components ≠ q.components :=
  List.pairwise_singleton _ _

/-- Aliases are kept under their names in every module of a tree. -/
theorem aliasesNamed_of_module? {roots : List Path} {m : SourceModule}
    (h : (program t roots).module? q = some m) : m.AliasesNamed := by
  obtain ⟨f, hf⟩ := Disk.exists_read_of_mem_load (d := .ofTree t) (List.mem_of_find?_eq_some h)
  obtain ⟨text, -, hparse⟩ := Option.bind_eq_some_iff.1 hf
  exact (SourceModule.parse?_eq_some hparse).2

/-- The functions of a file have distinct names. -/
theorem isDistinct_foundApi (p : Project) (t : FileTree) (q : Path) :
    Record.IsDistinct (p.foundApi t q) :=
  isDistinct_extractFiles (pairwise_singleton q) fun path m _ =>
    nodup_apiFunctions p.rules _ path m

/-- The events of a file have distinct names. -/
theorem isDistinct_foundEvents (t : FileTree) (q : Path) : Record.IsDistinct (foundEvents t q) :=
  isDistinct_extractFiles (pairwise_singleton q) fun _ _ hm =>
    nodup_apiEvents (aliasesNamed_of_module? hm)

/-- What is extracted from a single file is recorded under its path. -/
theorem path_of_mem_extractFiles {α : Type} {program : Program}
    {extract : Path → SourceModule → List α × List Skipped} {r : Record α}
    (h : r ∈ (extractFiles program extract [q]).records) : r.path = q := by
  obtain ⟨f, hf, m, -, rfl⟩ := mem_extractFiles.1 h
  exact List.mem_singleton.1 hf

/-- What is found in a file: the functions of its module, if it has one. -/
theorem mem_foundApi_iff (h : t.WellFormed) (hq : q.Full) {r : ApiRecord} :
    r ∈ p.foundApi t q ↔ ∃ m, (Disk.ofTree t).read q = some m ∧
      r = ⟨q, (apiFunctions p.rules (program t [q]) q m).1⟩ := by
  simp only [foundApi, mem_extractFiles, List.mem_singleton, exists_eq_left, program_eq_load,
    h.lawful.module?_load_eq_some_iff (Disk.full_singleton hq) hq.resolved]
  exact exists_congr fun m => and_congr_left fun _ => and_iff_right .refl

/-- What is found in a file: the events of its module, if it has one. -/
theorem mem_foundEvents_iff (h : t.WellFormed) (hq : q.Full) {r : EventRecord} :
    r ∈ foundEvents t q ↔ ∃ m, (Disk.ofTree t).read q = some m ∧
      r = ⟨q, (apiEvents (program t [q]) q m).1⟩ := by
  simp only [foundEvents, mem_extractFiles, List.mem_singleton, exists_eq_left, program_eq_load,
    h.lawful.module?_load_eq_some_iff (Disk.full_singleton hq) hq.resolved]
  exact exists_congr fun m => and_congr_left fun _ => and_iff_right .refl

/-! ## Edits -/

/-- The edits that a change makes of the records of one kind, where `found` tells what is found in a
file. -/
def edits {α : Type} (p : Project) (t : FileTree) (root : WatchRoot)
    (found : Path → List (Record α)) (c : Change) : List (Record.Edit α) :=
  if c.root = root then
    match p.react? t c with
    | none => []
    | some (.remove path) => [.remove path]
    | some (.update path) => [.replace path (found path)]
  else []

/-- The edits that a change makes of the functions. -/
def apiEdits (p : Project) (t : FileTree) : Change → List (Record.Edit ApiFunction) :=
  p.edits t .api (p.foundApi t)

/-- The edits that a change makes of the events. -/
def eventEdits (p : Project) (t : FileTree) : Change → List (Record.Edit ApiEvent) :=
  p.edits t .events (foundEvents t)

/-- The edit is a replacement. -/
def replaces {α : Type} : Record.Edit α → Bool
  | .remove _ => false
  | .replace _ _ => true

section edits

variable {α : Type} {root : WatchRoot} {found : Path → List (Record α)}

/-- A path goes in an edit if the reaction says so. -/
theorem mem_edits_remove {path : Path} : .remove path ∈ p.edits t root found c ↔
    c.root = root ∧ p.react? t c = some (.remove path) := by
  rw [edits]
  split
  · next hroot =>
    cases hreact : p.react? t c with
    | none => simp
    | some r => cases r <;> simp [hroot, eq_comm]
  · next hroot => simp [hroot]

/-- A file is replaced in an edit if the reaction says so, by what is found in it. -/
theorem mem_edits_replace {path : Path} {records : List (Record α)} :
    .replace path records ∈ p.edits t root found c ↔
      c.root = root ∧ p.react? t c = some (.update path) ∧ found path = records := by
  rw [edits]
  split
  · next hroot =>
    cases hreact : p.react? t c with
    | none => simp
    | some r =>
      cases r with
      | remove q => simp
      | update q =>
        simp only [List.mem_singleton, Record.Edit.replace.injEq, hroot, Option.some.injEq,
          Reaction.update.injEq, true_and]
        exact ⟨fun ⟨hq, hf⟩ => ⟨hq.symm, hq ▸ hf.symm⟩, fun ⟨hq, hf⟩ => ⟨hq.symm, hq ▸ hf.symm⟩⟩
  · next hroot => simp [hroot]

/-- The edits of changes are compatible if what is found in a file are distinct records of it and no
removed directory holds a file that is read again. -/
theorem compatible_edits [Named α] (hdistinct : ∀ q, Record.IsDistinct (found q))
    (hpath : ∀ q, ∀ r ∈ found q, r.path = q) {cs : List Change}
    (hkept : ∀ c ∈ cs, ∀ d ∈ cs, ∀ q dir, p.react? t c = some (.update q) →
      p.react? t d = some (.remove dir) → dir.isWithin q = false) :
    Record.Compatible (cs.flatMap (p.edits t root found)) where
  distinct h := by
    obtain ⟨c, -, h⟩ := List.mem_flatMap.1 h
    obtain ⟨-, -, rfl⟩ := mem_edits_replace.1 h
    exact hdistinct _
  path_eq h := by
    obtain ⟨c, -, h⟩ := List.mem_flatMap.1 h
    obtain ⟨-, -, rfl⟩ := mem_edits_replace.1 h
    exact hpath _
  found_eq {q q' _ _} h h' he := by
    obtain ⟨c, -, h⟩ := List.mem_flatMap.1 h
    obtain ⟨-, hc, rfl⟩ := mem_edits_replace.1 h
    obtain ⟨d, -, h'⟩ := List.mem_flatMap.1 h'
    obtain ⟨-, hd, rfl⟩ := mem_edits_replace.1 h'
    obtain ⟨rfl, -⟩ := react?_eq_update_iff.1 hc
    obtain ⟨rfl, -⟩ := react?_eq_update_iff.1 hd
    rw [(Path.resolved_normalize _).eq_of_components_eq (Path.resolved_normalize _) he]
  kept {q _ dir} h h' := by
    obtain ⟨c, hc, h⟩ := List.mem_flatMap.1 h
    obtain ⟨-, hupdate, -⟩ := mem_edits_replace.1 h
    obtain ⟨d, hd, h'⟩ := List.mem_flatMap.1 h'
    obtain ⟨-, hremove⟩ := mem_edits_remove.1 h'
    exact hkept c hc d hd q dir hupdate hremove

end edits

/-! ## What a change does -/

/-- A working set that differs from another one just by the edits of a change. -/
structure Edited (p : Project) (t : FileTree) (c : Change) (set set' : WorkingSet) : Prop where
  api : set'.api = (p.apiEdits t c).foldl Record.Edit.apply set.api
  events : set'.events = (p.eventEdits t c).foldl Record.Edit.apply set.events
  isSome : set'.events?.isSome = (set.events?.isSome || (p.eventEdits t c).any replaces)

/-- Nothing is removed where there is nothing to be removed. -/
theorem remove_eq_self {α : Type} {records : List (Record α)}
    (h : ¬ Record.hasWithin records q = true) : Record.remove records q = records := by
  rw [Record.hasWithin, List.any_eq_true, not_exists] at h
  refine List.filter_eq_self.2 fun r hr => ?_
  have hr := fun hwithin => h r ⟨hr, hwithin⟩
  simpa using hr

/-- A change on whose account the working set is replaced makes its edits. -/
theorem edited_of_next? {set set' : WorkingSet} {r : Reaction} (hs : set.IsSorted)
    (hr : p.react? t c = some r) (h : p.next? t set c.root r = some set') :
    p.Edited t c set set' := by
  have hapi := hs.sortAll_api
  have hevents := hs.map_sortAll_events?
  cases r with
  | remove path =>
    obtain ⟨kept, hkept, rfl⟩ := Option.map_eq_some_iff.1 h
    cases hroot : c.root with
    | api =>
      rw [hroot, removed?] at hkept
      split at hkept <;> cases hkept
      refine ⟨?_, ?_, ?_⟩
      · simpa [apiEdits, edits, hroot, hr, WorkingSet.sort, Record.Edit.apply] using
          (hs.api.remove path).sortAll_eq_self
      · simp [eventEdits, edits, hroot, WorkingSet.sort, WorkingSet.events, hevents]
      · simp [eventEdits, edits, hroot, WorkingSet.sort]
    | events =>
      rw [hroot, removed?] at hkept
      obtain ⟨events, hsome, hkept⟩ := Option.bind_eq_some_iff.1 hkept
      split at hkept <;> cases hkept
      have hsorted := hs.events
      rw [WorkingSet.events, hsome, Option.getD_some] at hsorted
      refine ⟨?_, ?_, ?_⟩
      · simp [apiEdits, edits, hroot, WorkingSet.sort, hapi]
      · simpa [eventEdits, edits, hroot, hr, WorkingSet.sort, WorkingSet.events, hsome,
          Record.Edit.apply] using (hsorted.remove path).sortAll_eq_self
      · simp [eventEdits, edits, hroot, hr, WorkingSet.sort, hsome]
  | update path =>
    obtain ⟨rfl, -⟩ := react?_eq_update_iff.1 hr
    have hnormal := (Path.resolved_normalize c.path).normalize_eq
    have hset := Option.some.inj h
    rw [← hset]
    cases hroot : c.root with
    | api =>
      refine ⟨?_, ?_, ?_⟩
      · simp [apiEdits, edits, hroot, hr, WorkingSet.sort, updated, extractApi, foundApi,
          IpcWiring.extractApi, hnormal, Record.Edit.apply]
      · simp [eventEdits, edits, hroot, WorkingSet.sort, WorkingSet.events, updated, hevents]
      · simp [eventEdits, edits, hroot, WorkingSet.sort, updated]
    | events =>
      refine ⟨?_, ?_, ?_⟩
      · simp [apiEdits, edits, hroot, WorkingSet.sort, updated, hapi]
      · simp [eventEdits, edits, hroot, hr, WorkingSet.sort, WorkingSet.events, updated,
          extractEvents, foundEvents, IpcWiring.extractEvents, hnormal, Record.Edit.apply]
      · simp [eventEdits, edits, hroot, hr, WorkingSet.sort, updated, replaces]

/-- A change that is ignored makes no edits, or none that change anything. -/
theorem edited_of_none {set : WorkingSet}
    (h : ∀ r, p.react? t c = some r → p.next? t set c.root r = none) : p.Edited t c set set := by
  cases hr : p.react? t c with
  | none => exact ⟨by simp [apiEdits, edits, hr], by simp [eventEdits, edits, hr],
      by simp [eventEdits, edits, hr]⟩
  | some r =>
    have hnone := h r hr
    cases r with
    | update path => cases hnone
    | remove path =>
      rw [next?, Option.map_eq_none_iff] at hnone
      cases hroot : c.root with
      | api =>
        rw [hroot, removed?] at hnone
        split at hnone
        · cases hnone
        · next hwithin =>
          refine ⟨?_, by simp [eventEdits, edits, hroot], by simp [eventEdits, edits, hroot]⟩
          simp [apiEdits, edits, hroot, hr, Record.Edit.apply, remove_eq_self hwithin]
      | events =>
        refine ⟨by simp [apiEdits, edits, hroot], ?_,
          by simp [eventEdits, edits, hroot, hr, replaces]⟩
        rw [hroot, removed?] at hnone
        cases hsome : set.events? with
        | none =>
          simp [eventEdits, edits, hroot, hr, Record.Edit.apply, WorkingSet.events, hsome,
            Record.remove]
        | some events =>
          rw [hsome] at hnone
          simp only [bind, Option.bind] at hnone
          split at hnone
          · cases hnone
          · next hwithin =>
            simp [eventEdits, edits, hroot, hr, Record.Edit.apply, WorkingSet.events, hsome,
              remove_eq_self hwithin]

/-- A change with nothing in its way makes its edits. -/
theorem edited_of_change {w : Writer} {x : World} (hs : x.session.retained.IsSorted)
    (hwell : AllWell [(p.handleChange w x c).1]) :
    p.Edited x.tree c x.session.retained (p.handleChange w x c).2.session.retained := by
  have hhandled := p.handled w x c
  replace hwell := hwell _ List.mem_cons_self
  generalize (p.handleChange w x c).1 = outcome, (p.handleChange w x c).2 = y at hhandled hwell
  cases hhandled with
  | dropped => exact absurd rfl hwell.1
  | ignored _ hnext => exact edited_of_none hnext
  | failed => exact absurd rfl (hwell.2 _)
  | done hleads => exact edited_of_next? hs hleads.reaction hleads.next

/-- After a file was read again there is what is found in it. -/
theorem Edited.mem_api {set set' : WorkingSet} (he : p.Edited t c set set')
    (hs : set.IsSorted) (hroot : c.root = .api) (hreact : p.react? t c = some (.update q))
    {r : ApiRecord} (hr : r ∈ p.foundApi t q) : r.sortEntries ∈ set'.api := by
  have hedits : p.apiEdits t c = [.replace q (p.foundApi t q)] := by
    simp [apiEdits, edits, hroot, hreact]
  rw [he.api, hedits, List.foldl_cons, List.foldl_nil, hs.api.mem_apply]
  exact .inl ⟨r, hr, rfl⟩

/-- After a file was read again there is what is found in it. -/
theorem Edited.mem_events {set set' : WorkingSet} (he : p.Edited t c set set')
    (hs : set.IsSorted) (hroot : c.root = .events) (hreact : p.react? t c = some (.update q))
    {r : EventRecord} (hr : r ∈ foundEvents t q) : r.sortEntries ∈ set'.events := by
  have hedits : p.eventEdits t c = [.replace q (foundEvents t q)] := by
    simp [eventEdits, edits, hroot, hreact]
  rw [he.events, hedits, List.foldl_cons, List.foldl_nil, hs.events.mem_apply]
  exact .inl ⟨r, hr, rfl⟩

/-- After a path was gone there are no records of it or of anything below it. -/
theorem Edited.not_isWithin {set set' : WorkingSet} (he : p.Edited t c set set')
    (hroot : c.root = .events) (hreact : p.react? t c = some (.remove q)) {r : EventRecord}
    (hr : r ∈ set'.events) : q.isWithin r.path = false := by
  have hedits : p.eventEdits t c = [.remove q] := by
    simp [eventEdits, edits, hroot, hreact]
  rw [he.events, hedits, List.foldl_cons, List.foldl_nil] at hr
  exact (Record.mem_remove.1 hr).2

/-- A change that means nothing leaves the events alone. -/
theorem Edited.events_eq_of_none {set set' : WorkingSet} (he : p.Edited t c set set')
    (hreact : p.react? t c = none) : set'.events = set.events := by
  have hedits : p.eventEdits t c = [] := by simp [eventEdits, edits, hreact]
  rw [he.events, hedits, List.foldl_nil]

/-- A change below the directory of functions leaves the events alone. -/
theorem Edited.events_eq {set set' : WorkingSet} (he : p.Edited t c set set')
    (hroot : c.root = .api) : set'.events = set.events := by
  rw [he.events, eventEdits, edits, hroot]
  rfl

end IpcWiring.Project
