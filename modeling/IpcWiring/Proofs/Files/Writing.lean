import IpcWiring.Files.Writer
import IpcWiring.Proofs.Files.Following

/-!
# What writing does to a tree

`FileTree.WrittenAt places t u` says that `u` is `t` with files written at some places and with the
directories made that lead there: whatever else there is stays, directories stay directories and
files stay files. Every run of `Writer.writeAll`, however it ends, leaves such a tree
(`Writer.writtenAt_writeAll`), and one that ends well leaves in every file the text that was to be
written to it, if no two of the files are one (`Writer.read_of_writeAll`).
-/

namespace IpcWiring

namespace FileTree

variable {t u v : FileTree} {places : List Place}

/-! ## One entry -/

/-- Where an entry was put it stands, and all else stays. -/
theorem entryAt?_put {place : Place} (hne : place ≠ []) (e : FileEntry) (q : Place) :
    (t.put place e).entryAt? q = if q = place then some e else t.entryAt? q := by
  unfold entryAt? put
  by_cases hq : q = place
  · subst hq
    have hempty : q.isEmpty = false := by simpa using hne
    have hnone : (t.entries.filter (·.1 != q)).find? (·.1 == q) = none := by
      simp
    simp [hempty, hnone, List.find?_append]
  · rw [if_neg hq]
    cases hempty : q.isEmpty with
    | true => rfl
    | false =>
      have hold : (t.entries.filter (·.1 != place)).find? (·.1 == q) =
          t.entries.find? (·.1 == q) := by
        rw [List.find?_filter]
        refine congrArg (List.find? · t.entries) (funext fun x => ?_)
        by_cases hx : x.1 = q <;> simp [hx, hq]
      have hlast : [(place, e)].find? (·.1 == q) = none := by
        simp [Ne.symm hq]
      simp [List.find?_append, hold, hlast]

/-- The content of a file that was put somewhere, and of the others. -/
theorem contentAt?_put_file {place : Place} (hne : place ≠ []) (content : ByteArray) (q : Place) :
    (t.put place (.file content)).contentAt? q =
      if q = place then some content else t.contentAt? q := by
  rw [contentAt?, contentAt?, entryAt?_put hne]
  by_cases hq : q = place
  · rw [if_pos hq, if_pos hq]
  · rw [if_neg hq, if_neg hq]

/-- Where a directory was put there is no file, and the other files stay. -/
theorem contentAt?_put_directory {place : Place} (hne : place ≠ []) (q : Place) :
    (t.put place .directory).contentAt? q = if q = place then none else t.contentAt? q := by
  rw [contentAt?, contentAt?, entryAt?_put hne]
  by_cases hq : q = place
  · rw [if_pos hq, if_pos hq]
  · rw [if_neg hq, if_neg hq]

/-- A place can take an entry: it is below the root, in a directory, with names of entries. -/
structure Takes (t : FileTree) (place : Place) : Prop where
  names : ∀ s ∈ place, IsEntryName s
  ne_nil : place ≠ []
  directory : t.isDirectoryAt place.dropLast = true

/-- Putting an entry where there is no directory, or a directory where there is none, keeps a tree
well-formed. -/
theorem WellFormed.put (h : t.WellFormed) {place : Place} (hp : t.Takes place) {e : FileEntry}
    (he : t.isDirectoryAt place = true → e = .directory) : (t.put place e).WellFormed where
  nodup := by
    rw [FileTree.put, List.map_append, List.nodup_append]
    refine ⟨h.nodup.sublist (List.filter_sublist.map _), by simp, fun q hq r hr => ?_⟩
    obtain ⟨x, hx, rfl⟩ := List.mem_map.1 hq
    have hne := (List.mem_filter.1 hx).2
    rw [List.map_singleton, List.mem_singleton] at hr
    rw [hr]
    simpa using hne
  names x hx := by
    rcases List.mem_append.1 hx with hx | hx
    · exact h.names x (List.mem_filter.1 hx).1
    · rw [List.mem_singleton.1 hx]
      exact hp.names
  parents x hx := by
    have hdir : ∀ q, t.isDirectoryAt q = true → (t.put place e).isDirectoryAt q = true := by
      intro q hq
      rw [isDirectoryAt_iff, entryAt?_put hp.ne_nil]
      split
      · next heq => rw [he (heq ▸ hq)]
      · exact isDirectoryAt_iff.1 hq
    rcases List.mem_append.1 hx with hx | hx
    · obtain ⟨hne, hparent⟩ := h.parents x (List.mem_filter.1 hx).1
      exact ⟨hne, hdir _ hparent⟩
    · rw [List.mem_singleton.1 hx]
      exact ⟨hp.ne_nil, hdir _ hp.directory⟩

/-! ## The frame of writing -/

/-- `u` is `t` with files written at some of the places, and with directories made that lead
there. -/
structure WrittenAt (places : List Place) (t u : FileTree) : Prop where
  wellFormed : u.WellFormed
  keeps : ∀ q e, q ∉ places → t.entryAt? q = some e → u.entryAt? q = some e
  directories : ∀ q, t.isDirectoryAt q = true → u.isDirectoryAt q = true
  files : ∀ q, (t.contentAt? q).isSome = true → (u.contentAt? q).isSome = true
  adds : ∀ q, t.entryAt? q = none → (u.entryAt? q).isSome = true →
    (q ∈ places ∧ (u.contentAt? q).isSome = true) ∨
      (∃ a ∈ places, q <+: a ∧ q ≠ a) ∧ u.isDirectoryAt q = true

/-- A tree on which nothing was written. -/
theorem WellFormed.writtenAt (h : t.WellFormed) (places : List Place) : WrittenAt places t t where
  wellFormed := h
  keeps _ _ _ he := he
  directories _ hq := hq
  files _ hq := hq
  adds q hnone hsome := by rw [hnone] at hsome; cases hsome

/-- Something that was there is there after writing. -/
theorem WrittenAt.isSome_entryAt? (h : WrittenAt places t u) {q : Place}
    (hq : (t.entryAt? q).isSome = true) : (u.entryAt? q).isSome = true := by
  rw [isSome_entryAt?_iff] at hq ⊢
  exact hq.imp (h.directories q) (h.files q)

/-- Writing and writing again. -/
theorem WrittenAt.trans (h : WrittenAt places t u) (h' : WrittenAt places u v) :
    WrittenAt places t v where
  wellFormed := h'.wellFormed
  keeps q e hq he := h'.keeps q e hq (h.keeps q e hq he)
  directories q hq := h'.directories q (h.directories q hq)
  files q hq := h'.files q (h.files q hq)
  adds q hnone hsome := by
    cases hu : u.entryAt? q with
    | none => exact h'.adds q hu hsome
    | some e =>
      exact (h.adds q hnone (by rw [hu]; rfl)).imp (fun ⟨hq, hc⟩ => ⟨hq, h'.files q hc⟩)
        fun ⟨ha, hd⟩ => ⟨ha, h'.directories q hd⟩

/-- Writing at some places is writing at more. -/
theorem WrittenAt.mono (h : WrittenAt places t u) {more : List Place} (hsub : places ⊆ more) :
    WrittenAt more t u where
  wellFormed := h.wellFormed
  keeps q e hq he := h.keeps q e (fun hin => hq (hsub hin)) he
  directories := h.directories
  files := h.files
  adds q hnone hsome := by
    rcases h.adds q hnone hsome with ⟨hq, hc⟩ | ⟨⟨a, ha, hpre⟩, hd⟩
    exacts [.inl ⟨hsub hq, hc⟩, .inr ⟨⟨a, hsub ha, hpre⟩, hd⟩]

/-- A file that is put at a place that can take it. -/
theorem WellFormed.writtenAt_put_file (h : t.WellFormed) {place : Place} (hp : t.Takes place)
    (hdir : t.isDirectoryAt place = false) (content : ByteArray) :
    WrittenAt [place] t (t.put place (.file content)) where
  wellFormed := h.put hp fun hd => by rw [hdir] at hd; cases hd
  keeps q e hq he := by
    rw [entryAt?_put hp.ne_nil, if_neg (by simpa using hq), he]
  directories q hq := by
    rw [isDirectoryAt_iff, entryAt?_put hp.ne_nil, if_neg, isDirectoryAt_iff.1 hq]
    rintro rfl
    rw [hdir] at hq
    cases hq
  files q hq := by
    rw [contentAt?_put_file hp.ne_nil]
    split
    exacts [rfl, hq]
  adds q hnone hsome := by
    rw [entryAt?_put hp.ne_nil] at hsome
    split at hsome
    · next heq =>
      exact .inl ⟨List.mem_singleton.2 heq, by rw [contentAt?_put_file hp.ne_nil, if_pos heq]; rfl⟩
    · rw [hnone] at hsome
      cases hsome

/-- A directory that is made where nothing is, on the way to one of the places. -/
theorem WellFormed.writtenAt_put_directory (h : t.WellFormed) {place : Place} (hp : t.Takes place)
    (hnone : t.entryAt? place = none) {a : Place} (ha : a ∈ places) (hpre : place <+: a)
    (hne : place ≠ a) : WrittenAt places t (t.put place .directory) where
  wellFormed := h.put hp fun _ => rfl
  keeps q e _ he := by
    rw [entryAt?_put hp.ne_nil, if_neg, he]
    rintro rfl
    rw [hnone] at he
    cases he
  directories q hq := by
    rw [isDirectoryAt_iff, entryAt?_put hp.ne_nil, isDirectoryAt_iff.1 hq]
    split <;> rfl
  files q hq := by
    rw [contentAt?_put_directory hp.ne_nil, if_neg]
    · exact hq
    · rintro rfl
      rw [contentAt?, hnone] at hq
      cases hq
  adds q hq hsome := by
    rw [entryAt?_put hp.ne_nil] at hsome
    split at hsome
    · next heq =>
      subst heq
      exact .inr ⟨⟨a, ha, hpre, hne⟩, by rw [isDirectoryAt_iff, entryAt?_put hp.ne_nil, if_pos rfl]⟩
    · rw [hq] at hsome
      cases hsome

/-! ## Writing one file -/

/-- The last component of a path to a place below the root is the last name of the place. -/
theorem exists_components_snoc {p : Path} (hp : Component.Resolved p.components)
    (hne : p.place ≠ []) : ∃ front ∈ Component.fronts, ∃ init s, p.place = init ++ [s] ∧
      p.components = front ++ init.map Component.name ++ [.name s] := by
  obtain ⟨⟨front, hf, he⟩, -⟩ := Path.components_eq_place hp
  obtain ⟨init, s, hinit⟩ := (List.eq_nil_or_concat p.place).resolve_left hne
  rw [List.concat_eq_append] at hinit
  rw [hinit, List.map_append, List.map_singleton, ← List.append_assoc] at he
  exact ⟨front, hf, init, s, hinit, he⟩

/-- Where the last step of a resolved path leads. -/
theorem WellFormed.target_eq_ok_iff (h : t.WellFormed) {p : Path}
    (hp : Component.Resolved p.components) (hne : p.place ≠ []) {q : Place} :
    t.target p = .ok q ↔ q = p.place ∧ t.isDirectoryAt p.place.dropLast = true := by
  obtain ⟨front, hf, init, s, hinit, he⟩ := exists_components_snoc hp hne
  have htarget : t.target p = .ok q ↔ ∃ dir, t.follow [] (init.map .name) = .ok dir ∧
      t.isDirectoryAt dir = true ∧ dir ++ [s] = q := by
    rw [target, he, List.getLast?_concat, List.dropLast_concat, follow_front hf]
    cases t.follow [] (init.map .name) with
    | error e => simp [bind, Except.bind]
    | ok dir =>
      cases hentry : t.entryAt? dir with
      | none => simp [bind, Except.bind, hentry, isDirectoryAt_iff]
      | some e => cases e <;> simp [bind, Except.bind, hentry, isDirectoryAt_iff]
  rw [htarget, hinit, List.dropLast_concat]
  constructor
  · rintro ⟨dir, hfollow, hdir, rfl⟩
    obtain ⟨rfl, -⟩ := eq_of_follow_names hfollow
    exact ⟨rfl, hdir⟩
  · rintro ⟨rfl, hdir⟩
    exact ⟨init, h.follow_names [] (isSome_entryAt?_iff.2 (.inl hdir)), hdir, rfl⟩

/-- A path to the root leads no further. -/
theorem WellFormed.target_eq_nil (h : t.WellFormed) {p : Path}
    (hp : Component.Resolved p.components) (hnil : p.place = []) {q : Place}
    (hq : t.target p = .ok q) : q = [] := by
  obtain ⟨⟨front, hf, he⟩, -⟩ := Path.components_eq_place hp
  rw [hnil, List.map_nil, List.append_nil] at he
  have hlocate : t.target p = t.locate p := by
    rw [target, he]
    simp only [Component.fronts, List.mem_cons, List.not_mem_nil, or_false] at hf
    rcases hf with rfl | rfl | rfl | rfl <;> rfl
  rw [hlocate, h.locate_eq_ok_iff hp] at hq
  rw [hq.2.1, hnil]

/-- A path has a target just where its place can take an entry, unless it leads to the root. -/
theorem WellFormed.target_eq_ok (h : t.WellFormed) {p : Path} (hp : p.Resolved) {q : Place} :
    t.target p = .ok q ∧ q ≠ [] ↔ t.Takes p.place ∧ q = p.place := by
  by_cases hnil : p.place = []
  · refine ⟨fun ⟨hq, hne⟩ => absurd (h.target_eq_nil hp.components hnil hq) hne, fun ⟨ht, _⟩ => ?_⟩
    exact absurd hnil ht.ne_nil
  · rw [h.target_eq_ok_iff hp.components hnil]
    constructor
    · rintro ⟨⟨rfl, hdir⟩, hne⟩
      exact ⟨⟨(Path.components_eq_place hp.components).2, hne, hdir⟩, rfl⟩
    · rintro ⟨ht, rfl⟩
      exact ⟨⟨rfl, ht.directory⟩, hnil⟩

/-- A file is written just where a place can take it and is no directory. -/
theorem WellFormed.write_eq_ok_iff (h : t.WellFormed) {p : Path} (hp : p.Resolved)
    {content : ByteArray} : t.write p content = .ok u ↔
      t.Takes p.place ∧ t.isDirectoryAt p.place = false ∧ u = t.put p.place (.file content) := by
  have hwrite : t.write p content = .ok u ↔ ∃ q, t.target p = .ok q ∧
      endsAsDirectory p = false ∧ t.isDirectoryAt q = false ∧ u = t.put q (.file content) := by
    rw [write]
    cases t.target p with
    | error e => simp [bind, Except.bind]
    | ok q =>
      constructor
      · intro he
        simp only [bind, Except.bind] at he
        split at he <;> cases he
        next hor =>
        rw [Bool.or_eq_true, not_or, Bool.not_eq_true, Bool.not_eq_true] at hor
        exact ⟨q, rfl, hor.1, hor.2, rfl⟩
      · rintro ⟨r, hr, hends, hdir, rfl⟩
        cases hr
        simp [bind, Except.bind, hends, hdir]
  rw [hwrite]
  constructor
  · rintro ⟨q, hq, -, hdir, rfl⟩
    have hne : q ≠ [] := fun he => by rw [he] at hdir; cases hdir
    obtain ⟨ht, rfl⟩ := (h.target_eq_ok hp).1 ⟨hq, hne⟩
    exact ⟨ht, hdir, rfl⟩
  · rintro ⟨ht, hdir, rfl⟩
    exact ⟨p.place, ((h.target_eq_ok hp).2 ⟨ht, rfl⟩).1, endsAsDirectory_of_resolved hp ht.ne_nil,
      hdir, rfl⟩

/-- A directory is made just where a place can take it and nothing is. -/
theorem WellFormed.makeDirectory_eq_ok_iff (h : t.WellFormed) {p : Path} (hp : p.Resolved) :
    t.makeDirectory p = .ok u ↔
      t.Takes p.place ∧ t.entryAt? p.place = none ∧ u = t.put p.place .directory := by
  have hmake : t.makeDirectory p = .ok u ↔ ∃ q, t.target p = .ok q ∧
      t.entryAt? q = none ∧ u = t.put q .directory := by
    rw [makeDirectory]
    cases t.target p with
    | error e => simp [bind, Except.bind]
    | ok q => cases hq : t.entryAt? q <;> simp [bind, Except.bind, hq, eq_comm]
  rw [hmake]
  constructor
  · rintro ⟨q, hq, hnone, rfl⟩
    have hne : q ≠ [] := fun he => by rw [he] at hnone; cases hnone
    obtain ⟨ht, rfl⟩ := (h.target_eq_ok hp).1 ⟨hq, hne⟩
    exact ⟨ht, hnone, rfl⟩
  · rintro ⟨ht, hnone, rfl⟩
    exact ⟨p.place, ((h.target_eq_ok hp).2 ⟨ht, rfl⟩).1, hnone, rfl⟩

/-- Writing a file is writing at its place. -/
theorem WellFormed.writtenAt_write (h : t.WellFormed) {p : Path} (hp : p.Resolved)
    {content : ByteArray} (hw : t.write p content = .ok u) :
    WrittenAt [p.place] t u ∧ u.contentAt? p.place = some content := by
  obtain ⟨ht, hdir, rfl⟩ := (h.write_eq_ok_iff hp).1 hw
  exact ⟨h.writtenAt_put_file ht hdir content, by rw [contentAt?_put_file ht.ne_nil, if_pos rfl]⟩

/-! ## Making directories -/

/-- Making directories on the way to a place is writing at that place. -/
theorem WellFormed.writtenAt_makeFirst {a : Place} : ∀ {ps : List Path} {t u : FileTree},
    t.WellFormed → (∀ p ∈ ps, p.Resolved ∧ p.place <+: a ∧ p.place ≠ a) →
      t.makeFirst ps = .ok u → WrittenAt [a] t u
  | [], t, u, h, _, hm => by
    cases hm
    exact h.writtenAt _
  | p :: ps, t, u, h, hps, hm => by
    obtain ⟨hp, hpre, hne⟩ := hps p List.mem_cons_self
    have hmake : ∀ {t u : FileTree}, t.WellFormed → t.makeDirectory p = .ok u →
        WrittenAt [a] t u := fun h hm => by
      obtain ⟨ht, hnone, rfl⟩ := (h.makeDirectory_eq_ok_iff hp).1 hm
      exact h.writtenAt_put_directory ht hnone List.mem_cons_self hpre hne
    rw [makeFirst] at hm
    split at hm
    · next v hmade =>
      cases hm
      split at hmade
      · cases hout : t.makeFirst ps with
        | error e => rw [hout] at hmade; cases hmade
        | ok v =>
          rw [hout] at hmade
          have hv := writtenAt_makeFirst h (fun q hq => hps q (List.mem_cons_of_mem p hq)) hout
          exact hv.trans (hmake hv.wellFormed hmade)
      · exact hmake h hmade
    · split at hm <;> cases hm
      exact h.writtenAt _

/-- The paths on the way to a resolved path are resolved, with its first components. -/
theorem resolved_of_mem_leadingPaths {cs : List Component} (h : Component.Resolved cs) {p : Path}
    (hp : p ∈ leadingPaths cs) : p.Resolved ∧ p.components <+: cs := by
  rw [leadingPaths, List.mem_reverse, List.mem_map] at hp
  obtain ⟨n, -, rfl⟩ := hp
  have htake := h.take (n + 1)
  rw [Path.components_ofComponents_of_resolved htake]
  exact ⟨Path.resolved_ofComponents htake, List.take_prefix _ _⟩

/-! ## Missing directories -/

/-- A resolved path to a place below the root. -/
structure NamesEntry (p : Path) : Prop where
  resolved : p.Resolved
  ne_nil : p.place ≠ []

/-- The directory of an entry. -/
theorem NamesEntry.parent? {p : Path} (hp : NamesEntry p) :
    ∃ dir, p.parent? = some dir ∧ dir.Resolved ∧ dir.place = p.place.dropLast ∧
      dir.components = p.components.dropLast := by
  obtain ⟨front, hf, init, s, hinit, he⟩ :=
    exists_components_snoc hp.resolved.components hp.ne_nil
  have hdrop : p.components.dropLast = front ++ init.map .name := by
    rw [he, List.dropLast_concat]
  have hres := hp.resolved.components.dropLast
  have hcs := Path.components_ofComponents_of_resolved hres
  refine ⟨_, hp.resolved.parent?_eq (hdrop ▸ he), Path.resolved_ofComponents hres, ?_, hcs⟩
  rw [Path.place, hcs, hdrop, List.filterMap_append, Component.filterMap_name?_front hf,
    Component.filterMap_name?, List.nil_append, hinit, List.dropLast_concat]

/-- Making the directory of a file is writing at the file's place. -/
theorem WellFormed.writtenAt_makeParent (h : t.WellFormed) {p : Path} (hp : NamesEntry p)
    (hm : t.makeParent p = .ok u) : WrittenAt [p.place] t u := by
  obtain ⟨dir, hparent, hdir, hplace, -⟩ := hp.parent?
  rw [makeParent] at hm
  split at hm
  · cases hm
    exact h.writtenAt _
  · next missing hmissing =>
    rw [missingParent?, hparent, Option.filter_some] at hmissing
    split at hmissing <;> cases hmissing
    cases hmake : t.makeDirectories dir with
    | error e => rw [hmake] at hm; cases hm
    | ok v =>
      rw [hmake] at hm
      cases hm
      refine h.writtenAt_makeFirst (fun q hq => ?_) hmake
      obtain ⟨hq, hpre⟩ := resolved_of_mem_leadingPaths hdir.components hq
      have hdrop : q.place <+: p.place.dropLast := hplace ▸ hpre.filterMap _
      refine ⟨hq, hdrop.trans (List.dropLast_prefix _), fun he => ?_⟩
      have hlen := hdrop.length_le
      rw [he, List.length_dropLast] at hlen
      have := List.length_pos_iff.2 hp.ne_nil
      omega

end FileTree

namespace Writer

open FileTree

variable {w : Writer} {t u : FileTree} {p : Path} {text : String}

/-! ## Writers -/

/-- Making the directory of a file is writing at the file's place. -/
theorem writtenAt_makeParent (h : t.WellFormed) (hp : NamesEntry p)
    (hm : w.makeParent t p = .ok u) : WrittenAt [p.place] t u := by
  rw [makeParent] at hm
  split at hm
  · cases hm
  · exact h.writtenAt_makeParent hp hm

/-- Putting a text into a file, whatever comes of it, is writing at its place. -/
theorem writtenAt_put (h : t.WellFormed) (hp : NamesEntry p) :
    WrittenAt [p.place] t (w.put t p text).2 := by
  rw [put]
  split
  · next fault hfault =>
    cases hleft : fault.left? with
    | none => exact h.writtenAt _
    | some content =>
      rw [Option.bind_some]
      cases hwrite : t.write p content with
      | error e => exact h.writtenAt _
      | ok u => exact (h.writtenAt_write hp.resolved hwrite).1
  · split
    · exact h.writtenAt _
    · next hwrite => exact (h.writtenAt_write hp.resolved hwrite).1

/-- A text that was put into a file is there. -/
theorem contentAt?_of_put (h : t.WellFormed) (hp : NamesEntry p) {r : WriteResult}
    (hr : (w.put t p text).1 = .ok r) :
    (w.put t p text).2.contentAt? p.place = some text.toUTF8 := by
  rw [put] at hr ⊢
  split at hr
  · cases hr
  · split at hr
    · cases hr
    · next hwrite => exact (h.writtenAt_write hp.resolved hwrite).2

/-- Writing a file, whatever comes of it, is writing at its place. -/
theorem writtenAt_write (w : Writer) (text : String) (h : t.WellFormed) (hp : NamesEntry p) :
    WrittenAt [p.place] t (w.write t p text).2 := by
  rw [write]
  split
  · exact h.writtenAt _
  split
  · exact h.writtenAt _
  split
  · exact h.writtenAt _
  · next hmake =>
    have hmade := writtenAt_makeParent h hp hmake
    exact hmade.trans (writtenAt_put hmade.wellFormed hp)

/-- A file that has its text is current. -/
theorem isCurrent_iff (h : t.WellFormed) (hp : NamesEntry p) :
    t.isCurrent p text = true ↔ t.contentAt? p.place = some text.toUTF8 := by
  have hread : t.isCurrent p text = true ↔ t.read p = .ok text.toUTF8 := by
    rw [isCurrent]
    cases t.read p with
    | error e => simp
    | ok content =>
      have hbeq : (content == text.toUTF8) = true ↔ content = text.toUTF8 := by
        rw [ByteArray.ext_iff]
        exact beq_iff_eq (a := content.data)
      simpa using hbeq
  rw [hread, h.read_eq_ok_iff hp.resolved.components,
    endsAsDirectory_of_resolved hp.resolved hp.ne_nil]
  exact and_iff_right rfl

/-- A file that was written has its text. -/
theorem contentAt?_of_write (h : t.WellFormed) (hp : NamesEntry p) (hw : w.dryRun = false)
    {r : WriteResult} (hr : (w.write t p text).1 = .ok r) :
    (w.write t p text).2.contentAt? p.place = some text.toUTF8 := by
  rw [write, hw] at hr ⊢
  simp only [Bool.false_eq_true, if_false] at hr ⊢
  by_cases hcurrent : t.isCurrent p text = true
  · rw [if_pos hcurrent]
    exact (isCurrent_iff h hp).1 hcurrent
  · rw [if_neg hcurrent] at hr ⊢
    cases hmake : w.makeParent t p with
    | error e => rw [hmake] at hr; cases hr
    | ok u =>
      rw [hmake] at hr
      exact contentAt?_of_put (writtenAt_makeParent h hp hmake).wellFormed hp hr

/-- Writing files, however it ends, is writing at their places. -/
theorem writtenAt_writeAll : ∀ {outputs : List (Path × String)} {t : FileTree}, t.WellFormed →
    (∀ o ∈ outputs, NamesEntry o.1) →
      WrittenAt (outputs.map (·.1.place)) t (w.writeAll t outputs).2
  | [], t, h, _ => h.writtenAt _
  | (p, text) :: rest, t, h, hp => by
    have hfirst := writtenAt_write w text h (hp _ List.mem_cons_self)
    have hrest := writtenAt_writeAll hfirst.wellFormed fun o ho => hp o (List.mem_cons_of_mem _ ho)
    have hmore : WrittenAt (((p, text) :: rest).map (·.1.place)) t (w.write t p text).2 :=
      hfirst.mono (by simp)
    rw [writeAll]
    rcases hone : w.write t p text with ⟨_ | r, u⟩
    · rw [hone] at hmore
      exact hmore
    · rw [hone] at hmore hrest
      exact hmore.trans (hrest.mono (by simp))

/-- Files that were all written have their texts, if no two of them stand at one place. -/
theorem contentAt?_of_writeAll (hw : w.dryRun = false) : ∀ {outputs : List (Path × String)}
    {t : FileTree}, t.WellFormed → (∀ o ∈ outputs, NamesEntry o.1) →
      (outputs.map (·.1.place)).Nodup → ∀ {rs : List WriteResult},
        (w.writeAll t outputs).1 = .ok rs → ∀ o ∈ outputs,
          (w.writeAll t outputs).2.contentAt? o.1.place = some o.2.toUTF8
  | [], _, _, _, _, _, _ => nofun
  | (p, text) :: rest, t, h, hp, hnodup, rs, hr => by
    rw [List.map_cons, List.nodup_cons] at hnodup
    have hp' : ∀ o ∈ rest, NamesEntry o.1 := fun o ho => hp o (List.mem_cons_of_mem _ ho)
    have hfirst := writtenAt_write w text h (hp _ List.mem_cons_self)
    have hrest := writtenAt_writeAll (w := w) hfirst.wellFormed hp'
    rw [writeAll] at hr ⊢
    rcases hone : w.write t p text with ⟨_ | r, u⟩
    · rw [hone] at hr
      cases hr
    · have hcontent := contentAt?_of_write h (hp _ List.mem_cons_self) hw
        (congrArg Prod.fst hone)
      rw [hone] at hr hrest hcontent hfirst
      cases hall : (w.writeAll u rest).1 with
      | error e => simp only [hall] at hr; cases hr
      | ok rs =>
        intro o ho
        rcases List.mem_cons.1 ho with rfl | ho
        · exact contentAt?_eq_some.2
            (hrest.keeps _ _ hnodup.1 (contentAt?_eq_some.1 hcontent))
        · exact contentAt?_of_writeAll hw hfirst.wellFormed hp' hnodup.2 hall o ho

/-- Files that all have their texts are left alone. -/
theorem writeAll_of_isCurrent (hw : w.dryRun = false) : ∀ {outputs : List (Path × String)},
    (∀ o ∈ outputs, t.isCurrent o.1 o.2 = true) →
      w.writeAll t outputs = (.ok (outputs.map fun o => .unchanged o.1), t)
  | [], _ => rfl
  | (p, text) :: rest, h => by
    have hfirst : w.write t p text = (.ok (.unchanged p), t) := by
      rw [write, hw, if_neg Bool.false_ne_true, if_pos (h _ List.mem_cons_self)]
    rw [writeAll, hfirst]
    dsimp only
    rw [writeAll_of_isCurrent hw fun o ho => h o (List.mem_cons_of_mem _ ho)]
    rfl

end Writer

end IpcWiring
