import Mathlib.Data.List.Nodup
import IpcWiring.Files.Tree
import IpcWiring.Proofs.Path.Resolved

/-!
# Following resolved paths

A file tree is well-formed (`FileTree.WellFormed`) when each entry has a place of its own, with
names that entries can have, in a directory of the tree. In such a tree a resolved path leads to its
place (`Path.place`), and finds just what stands there: `FileTree.locate_eq_ok_iff` says where a
path leads, and `FileTree.contains_iff`, `FileTree.isDirectory_iff` and `FileTree.readText?_eq` say
what is found.
-/

namespace IpcWiring

/-! ## Places of paths -/

namespace Component

/-- The name, if the component is one. -/
def name? : Component → Option String
  | name s => some s
  | root | here | up => none

/-- The names of names. -/
@[simp] theorem filterMap_name? (names : List String) :
    (names.map name).filterMap name? = names := by
  rw [List.filterMap_map]
  exact List.filterMap_some

/-- What stands in front of the names of a resolved list has no names. -/
theorem filterMap_name?_front {front : List Component} (h : front ∈ fronts) :
    front.filterMap name? = [] := by
  simp only [fronts, List.mem_cons, List.not_mem_nil, or_false] at h
  rcases h with rfl | rfl | rfl | rfl <;> rfl

end Component

namespace Path

/-- The names among the components: the place that a resolved path leads to. -/
def place (p : Path) : Place := p.components.filterMap Component.name?

/-- The components of a path with resolved components are its place behind a front. -/
theorem components_eq_place {p : Path} (h : Component.Resolved p.components) :
    (∃ front ∈ Component.fronts, p.components = front ++ p.place.map .name) ∧
      ∀ s ∈ p.place, IsEntryName s := by
  obtain ⟨front, hf, names, hn, he⟩ := h
  have hplace : p.place = names := by
    rw [place, he, List.filterMap_append, Component.filterMap_name?_front hf,
      Component.filterMap_name?, List.nil_append]
  rw [hplace]
  exact ⟨⟨front, hf, he⟩, hn⟩

end Path

/-! ## Paths from the root -/

namespace Path

/-- The path leads from the root down to its place. -/
structure Rooted (p : Path) : Prop where
  resolved : p.Resolved
  components_eq : p.components = .root :: p.place.map .name

/-- The names of a path from the root are names of entries. -/
theorem Rooted.isEntryName {p : Path} (h : p.Rooted) : ∀ s ∈ p.place, IsEntryName s :=
  (components_eq_place h.resolved.components).2

/-- A path from the root is full. -/
theorem Rooted.full {p : Path} (h : p.Rooted) : p.Full :=
  ⟨h.resolved, by rw [h.components_eq]; exact List.mem_cons_self⟩

/-- A path from the root is written from the names of its place. -/
theorem Rooted.eq_ofComponents {p : Path} (h : p.Rooted) :
    p = ofComponents (.root :: p.place.map .name) := by
  rw [← h.components_eq, h.resolved.written]

/-- Paths from the root to one place are the same. -/
theorem Rooted.ext {p q : Path} (hp : p.Rooted) (hq : q.Rooted) (h : p.place = q.place) :
    p = q := by
  rw [hp.eq_ofComponents, h, ← hq.eq_ofComponents]

/-- What is written from the root and names leads to their place. -/
theorem rooted_ofComponents {names : List String} (h : ∀ s ∈ names, IsEntryName s) :
    (ofComponents (.root :: names.map .name)).Rooted ∧
      (ofComponents (.root :: names.map .name)).place = names := by
  have hres : Component.Resolved (.root :: names.map .name) :=
    ⟨[.root], by simp [Component.fronts], names, h, rfl⟩
  have hcs := components_ofComponents_of_resolved hres
  have hplace : (ofComponents (.root :: names.map .name)).place = names := by
    rw [place, hcs]
    exact Component.filterMap_name? names
  exact ⟨⟨resolved_ofComponents hres, by rw [hplace, hcs]⟩, hplace⟩

/-- The path of a place is written from its names. -/
theorem pathOf_eq_ofComponents (place : Place) :
    FileTree.pathOf place = ofComponents (.root :: place.map .name) := by
  rw [FileTree.pathOf, ofComponents, List.map_map]
  exact congrArg (fun names => Path.mk ("/" ++ Text.joinWith "/" names)) (List.map_id' place).symm

/-- The path of a place with names of entries leads from the root to the place. -/
theorem rooted_pathOf {place : Place} (h : ∀ s ∈ place, IsEntryName s) :
    (FileTree.pathOf place).Rooted ∧ (FileTree.pathOf place).place = place := by
  rw [pathOf_eq_ofComponents]
  exact rooted_ofComponents h

/-- A path from the root is the path of its place. -/
theorem Rooted.eq_pathOf {p : Path} (h : p.Rooted) : p = FileTree.pathOf p.place := by
  rw [pathOf_eq_ofComponents, ← h.eq_ofComponents]

/-- An absolute path that does not climb leads down from the root. -/
theorem Resolved.rooted {p : Path} (h : p.Resolved) (habs : Component.root ∈ p.components)
    (hup : Component.up ∉ p.components) : p.Rooted := by
  obtain ⟨⟨front, hf, he⟩, -⟩ := components_eq_place h.components
  refine ⟨h, ?_⟩
  simp only [Component.fronts, List.mem_cons, List.not_mem_nil, or_false] at hf
  rcases hf with rfl | rfl | rfl | rfl
  · exact absurd (he ▸ habs) (by simp)
  · exact he
  · exact absurd (he ▸ List.mem_cons_self) hup
  · exact absurd (he ▸ by simp) hup

/-- An entry of a directory below the root. -/
theorem Rooted.join {dir : Path} (h : dir.Rooted) {s : String} (hs : IsEntryName s) :
    (dir.join ⟨s⟩).Rooted ∧ (dir.join ⟨s⟩).place = dir.place ++ [s] := by
  have hnames : ∀ r ∈ dir.place ++ [s], IsEntryName r := fun r hr => by
    rcases List.mem_append.1 hr with hr | hr
    exacts [h.isEntryName r hr, List.mem_singleton.1 hr ▸ hs]
  have hjoin : dir.join ⟨s⟩ = ofComponents (.root :: (dir.place ++ [s]).map .name) := by
    rw [h.resolved.join_eq hs, List.map_append, List.map_singleton, ← List.cons_append,
      ← h.components_eq]
  rw [hjoin]
  exact rooted_ofComponents hnames

/-- A path from the root is within a directory when the directory's place starts its own. -/
theorem Rooted.isWithin_iff {dir p : Path} (hdir : dir.Rooted) (hp : p.Rooted) :
    dir.isWithin p = true ↔ dir.place <+: p.place := by
  rw [isWithin, List.isPrefixOf_iff_prefix, hdir.components_eq, hp.components_eq,
    List.cons_prefix_cons, List.prefix_map_iff_of_injective]
  · simp
  · exact fun _ _ h => Component.name.inj h

end Path

namespace FileTree

variable {t : FileTree}

/-! ## Well-formed trees -/

/-- Every entry has a place of its own below the root, with names that entries can have, and lies in
a directory. -/
structure WellFormed (t : FileTree) : Prop where
  nodup : (t.entries.map (·.1)).Nodup
  names : ∀ e ∈ t.entries, ∀ s ∈ e.1, IsEntryName s
  parents : ∀ e ∈ t.entries, e.1 ≠ [] ∧ t.isDirectoryAt e.1.dropLast = true

instance (t : FileTree) : Decidable t.WellFormed :=
  decidable_of_iff ((t.entries.map (·.1)).Nodup ∧ (∀ e ∈ t.entries, ∀ s ∈ e.1, IsEntryName s) ∧
      ∀ e ∈ t.entries, e.1 ≠ [] ∧ t.isDirectoryAt e.1.dropLast = true)
    ⟨fun ⟨h1, h2, h3⟩ => ⟨h1, h2, h3⟩, fun ⟨h1, h2, h3⟩ => ⟨h1, h2, h3⟩⟩

/-- The root is a directory. -/
@[simp] theorem entryAt?_nil (t : FileTree) : t.entryAt? [] = some .directory := rfl

/-- A directory stands at a place if the entry there is one. -/
theorem isDirectoryAt_iff {place : Place} :
    t.isDirectoryAt place = true ↔ t.entryAt? place = some .directory := by
  rw [isDirectoryAt]
  cases t.entryAt? place with
  | none => simp
  | some e => cases e <;> simp

/-- A file stands at a place if the entry there is one. -/
theorem contentAt?_eq_some {place : Place} {content : ByteArray} :
    t.contentAt? place = some content ↔ t.entryAt? place = some (.file content) := by
  rw [contentAt?]
  cases t.entryAt? place with
  | none => simp
  | some e => cases e <;> simp

/-- A file is not a directory. -/
theorem isDirectoryAt_of_contentAt? (place : Place) (h : (t.contentAt? place).isSome = true) :
    t.isDirectoryAt place = false := by
  obtain ⟨content, hc⟩ := Option.isSome_iff_exists.1 h
  rw [isDirectoryAt, contentAt?_eq_some.1 hc]

/-- What is there is a directory or a file. -/
theorem isSome_entryAt?_iff {place : Place} : (t.entryAt? place).isSome = true ↔
    t.isDirectoryAt place = true ∨ (t.contentAt? place).isSome = true := by
  rw [isDirectoryAt, contentAt?]
  cases t.entryAt? place with
  | none => simp
  | some e => cases e <;> simp

/-- No file stands at the root. -/
@[simp] theorem contentAt?_nil (t : FileTree) : t.contentAt? [] = none := rfl

/-- An entry stands at its place. -/
theorem WellFormed.mem_iff (h : t.WellFormed) {place : Place} {e : FileEntry} :
    (place, e) ∈ t.entries ↔ place ≠ [] ∧ t.entryAt? place = some e := by
  have hfind : ∀ {entries : List (Place × FileEntry)}, (entries.map (·.1)).Nodup →
      ((place, e) ∈ entries ↔ (entries.find? (·.1 == place)).map (·.2) = some e) := by
    intro entries hn
    induction entries with
    | nil => simp
    | cons x rest ih =>
      obtain ⟨q, f⟩ := x
      rw [List.map_cons, List.nodup_cons] at hn
      rw [List.find?_cons, List.mem_cons]
      by_cases hq : q = place
      · subst hq
        have hnot : (q, e) ∉ rest := fun hin => hn.1 (List.mem_map.2 ⟨_, hin, rfl⟩)
        simp [hnot, eq_comm]
      · have hne : (q == place) = false := by simpa using hq
        simp only [hne, ← ih hn.2, Prod.mk.injEq, Ne.symm hq, false_and, false_or]
  constructor
  · intro hin
    have hne := (h.parents _ hin).1
    refine ⟨hne, ?_⟩
    rw [entryAt?, if_neg (by simpa using hne), ← hfind h.nodup]
    exact hin
  · rintro ⟨hne, he⟩
    rw [entryAt?, if_neg (by simpa using hne), ← hfind h.nodup] at he
    exact he

/-- The files of a tree are those at its places. -/
theorem WellFormed.mem_files_iff (h : t.WellFormed) {place : Place} {content : ByteArray} :
    (place, content) ∈ t.files ↔ t.contentAt? place = some content := by
  have hmem : (place, content) ∈ t.files ↔ (place, .file content) ∈ t.entries := by
    rw [files, List.mem_filterMap]
    constructor
    · rintro ⟨⟨q, e⟩, hin, he⟩
      cases e with
      | directory => cases he
      | file c => cases he; exact hin
    · exact fun hin => ⟨_, hin, rfl⟩
  rw [hmem, h.mem_iff, contentAt?_eq_some]
  refine and_iff_right_of_imp fun he hnil => ?_
  rw [hnil, entryAt?_nil] at he
  cases he

/-- The names that lead to an entry are names of entries. -/
theorem WellFormed.isEntryName (h : t.WellFormed) (place : Place)
    (hp : (t.entryAt? place).isSome = true) {s : String} (hs : s ∈ place) : IsEntryName s := by
  obtain ⟨e, he⟩ := Option.isSome_iff_exists.1 hp
  exact h.names (place, e) (h.mem_iff.2 ⟨List.ne_nil_of_mem hs, he⟩) s hs

/-- Every entry lies in a directory. -/
theorem WellFormed.isDirectoryAt_dropLast (h : t.WellFormed) {place : Place}
    (hp : (t.entryAt? place).isSome = true) : t.isDirectoryAt place.dropLast = true := by
  by_cases hnil : place = []
  · subst hnil; rfl
  · obtain ⟨e, he⟩ := Option.isSome_iff_exists.1 hp
    exact (h.parents (place, e) (h.mem_iff.2 ⟨hnil, he⟩)).2

/-- What leads to an entry is a directory. -/
theorem WellFormed.isDirectoryAt_of_append (h : t.WellFormed) {place : Place} :
    ∀ {names : List String}, names ≠ [] → (t.entryAt? (place ++ names)).isSome = true →
      t.isDirectoryAt place = true := by
  intro names
  induction names using List.reverseRecOn with
  | nil => exact fun hne => absurd rfl hne
  | append_singleton init s ih =>
    intro _ hp
    have hdir := h.isDirectoryAt_dropLast hp
    rw [← List.append_assoc, List.dropLast_concat] at hdir
    by_cases hnil : init = []
    · simpa [hnil] using hdir
    · exact ih hnil (isSome_entryAt?_iff.2 (.inl hdir))

/-- What starts the place of an entry is a directory or the entry. -/
theorem WellFormed.isDirectoryAt_of_prefix (h : t.WellFormed) {dir place : Place}
    (hpre : dir <+: place) (hne : dir ≠ place) (hp : (t.entryAt? place).isSome = true) :
    t.isDirectoryAt dir = true := by
  obtain ⟨names, rfl⟩ := hpre
  exact h.isDirectoryAt_of_append (fun he => hne (by rw [he, List.append_nil])) hp

/-! ## Following names -/

/-- Names lead to the entry that they are the names of. -/
theorem WellFormed.follow_names (h : t.WellFormed) : ∀ {names : List String} (place : Place),
    (t.entryAt? (place ++ names)).isSome = true →
      t.follow place (names.map .name) = .ok (place ++ names)
  | [], place, _ => by rw [List.append_nil]; rfl
  | s :: names, place, hp => by
    have hdir := isDirectoryAt_iff.1 (h.isDirectoryAt_of_append (List.cons_ne_nil s names) hp)
    rw [← List.singleton_append, ← List.append_assoc] at hp ⊢
    have hnext : (t.entryAt? (place ++ [s])).isSome = true := by
      by_cases hnil : names = []
      · simpa [hnil] using hp
      · exact isSome_entryAt?_iff.2 (.inl (h.isDirectoryAt_of_append hnil hp))
    rw [List.map_append, List.map_singleton, List.singleton_append, follow, hdir]
    simp only [hnext, if_true]
    exact h.follow_names _ hp

/-- Names lead nowhere but to the entry that they are the names of. -/
theorem eq_of_follow_names : ∀ {names : List String} {place q : Place},
    t.follow place (names.map .name) = .ok q →
      q = place ++ names ∧ (names = [] ∨ (t.entryAt? (place ++ names)).isSome = true)
  | [], place, q, hq => by
    cases hq
    exact ⟨(List.append_nil _).symm, .inl rfl⟩
  | s :: names, place, q, hq => by
    rw [List.map_cons, follow] at hq
    split at hq
    · split at hq
      · next hnext =>
        obtain ⟨rfl, hn⟩ := eq_of_follow_names hq
        rw [List.append_assoc, List.singleton_append] at hn ⊢
        refine ⟨rfl, .inr ?_⟩
        rcases hn with rfl | hn
        exacts [hnext, hn]
      · cases hq
    · cases hq
    · cases hq

/-- The front of a resolved path leads to the root. -/
theorem follow_front {front : List Component} (h : front ∈ Component.fronts)
    (cs : List Component) : t.follow [] (front ++ cs) = t.follow [] cs := by
  simp only [Component.fronts, List.mem_cons, List.not_mem_nil, or_false] at h
  rcases h with rfl | rfl | rfl | rfl <;> rfl

/-- Resolved components lead to the place of the path. -/
theorem follow_components {p : Path} (h : Component.Resolved p.components) :
    t.follow [] p.components = t.follow [] (p.place.map .name) := by
  obtain ⟨⟨front, hf, he⟩, -⟩ := Path.components_eq_place h
  conv_lhs => rw [he]
  exact follow_front hf _

/-- Where a resolved path leads: to its place, if something is there, and a directory if it is
spelled as one. -/
theorem WellFormed.locate_eq_ok_iff (h : t.WellFormed) {p : Path}
    (hp : Component.Resolved p.components) {q : Place} : t.locate p = .ok q ↔
      p.components ≠ [] ∧ q = p.place ∧ (t.entryAt? p.place).isSome = true ∧
        (endsAsDirectory p = true → t.isDirectoryAt p.place = true) := by
  have hfollow : ∀ q, t.follow [] p.components = .ok q ↔
      q = p.place ∧ (t.entryAt? p.place).isSome = true := fun q => by
    rw [follow_components hp]
    constructor
    · intro hq
      obtain ⟨he, hn⟩ := eq_of_follow_names hq
      rw [List.nil_append] at he hn
      refine ⟨he, ?_⟩
      rcases hn with hn | hn
      exacts [hn ▸ rfl, hn]
    · rintro ⟨rfl, hs⟩
      exact h.follow_names [] hs
  unfold locate
  by_cases hnil : p.components = []
  · simp [hnil, bind, Except.bind]
  · have hempty : p.components.isEmpty = false := by simpa using hnil
    simp only [hempty, Bool.false_eq_true, if_false, bind, Except.bind, ne_eq, hnil,
      not_false_eq_true, true_and]
    cases hf : t.follow [] p.components with
    | error e =>
      refine ⟨nofun, fun ⟨hq, hs, _⟩ => ?_⟩
      rw [(hfollow q).2 ⟨hq, hs⟩] at hf
      cases hf
    | ok place =>
      obtain ⟨rfl, hs⟩ := (hfollow _).1 hf
      simp only [hs, true_and]
      cases endsAsDirectory p <;> cases t.isDirectoryAt p.place <;> simp [eq_comm]

/-! ## What is found -/

section WellFormed

variable (h : t.WellFormed) {p : Path} (hp : Component.Resolved p.components)

include h hp

/-- Something is at a resolved path if something is at its place. -/
theorem WellFormed.contains_iff : t.contains p = true ↔
    p.components ≠ [] ∧ (t.entryAt? p.place).isSome = true ∧
      (endsAsDirectory p = true → t.isDirectoryAt p.place = true) := by
  have hlocate : t.contains p = true ↔ ∃ q, t.locate p = .ok q := by
    rw [contains]
    cases t.locate p <;> simp [Except.isOk, Except.toBool]
  rw [hlocate]
  simp only [h.locate_eq_ok_iff hp]
  exact ⟨fun ⟨_, h1, _, h2⟩ => ⟨h1, h2⟩, fun ⟨h1, h2⟩ => ⟨_, h1, rfl, h2⟩⟩

/-- A directory is at a resolved path if one is at its place. -/
theorem WellFormed.isDirectory_iff : t.isDirectory p = true ↔
    p.components ≠ [] ∧ t.isDirectoryAt p.place = true := by
  rw [isDirectory]
  cases hl : t.locate p with
  | ok q =>
    obtain ⟨hne, rfl, -⟩ := (h.locate_eq_ok_iff hp).1 hl
    simp [hne]
  | error e =>
    refine ⟨nofun, fun ⟨hne, hdir⟩ => ?_⟩
    have hok := (h.locate_eq_ok_iff hp).2
      ⟨hne, rfl, isSome_entryAt?_iff.2 (.inl hdir), fun _ => hdir⟩
    rw [hl] at hok
    cases hok

/-- A resolved path reads as the file at its place does. -/
theorem WellFormed.read_eq_ok_iff {content : ByteArray} : t.read p = .ok content ↔
    endsAsDirectory p = false ∧ t.contentAt? p.place = some content := by
  have hread : t.read p = .ok content ↔
      ∃ q, t.locate p = .ok q ∧ t.contentAt? q = some content := by
    rw [read]
    cases t.locate p with
    | error e => simp [bind, Except.bind]
    | ok q => cases hc : t.contentAt? q <;> simp [bind, Except.bind, hc]
  rw [hread]
  simp only [h.locate_eq_ok_iff hp]
  constructor
  · rintro ⟨q, ⟨-, rfl, -, hdir⟩, hc⟩
    refine ⟨?_, hc⟩
    have hnot := isDirectoryAt_of_contentAt? (t := t) p.place (by rw [hc]; rfl)
    cases he : endsAsDirectory p with
    | false => rfl
    | true => rw [hdir he] at hnot; cases hnot
  · rintro ⟨he, hc⟩
    refine ⟨p.place, ⟨fun hnil => ?_, rfl, ?_, fun hd => ?_⟩, hc⟩
    · rw [Path.place, hnil] at hc
      cases hc
    · exact isSome_entryAt?_iff.2 (.inr (by rw [hc]; rfl))
    · rw [he] at hd
      cases hd

/-- The text at a resolved path is that of the file at its place. -/
theorem WellFormed.readText?_eq : t.readText? p =
    if endsAsDirectory p then none else (t.contentAt? p.place).bind String.fromUTF8? := by
  have hcontent : ∀ content, t.read p = .ok content ↔
      (if endsAsDirectory p then none else t.contentAt? p.place) = some content := fun content => by
    rw [h.read_eq_ok_iff hp]
    cases endsAsDirectory p <;> simp
  have hdir : (if endsAsDirectory p then none else (t.contentAt? p.place).bind String.fromUTF8?) =
      (if endsAsDirectory p then none else t.contentAt? p.place).bind String.fromUTF8? := by
    cases endsAsDirectory p <;> rfl
  rw [readText?, hdir]
  cases hr : t.read p with
  | ok content => rw [(hcontent content).1 hr]; rfl
  | error e =>
    cases hc : (if endsAsDirectory p then none else t.contentAt? p.place) with
    | none => rfl
    | some content => rw [(hcontent content).2 hc] at hr; cases hr

end WellFormed

/-- A resolved path is spelled as a directory only if it leads to the root. -/
theorem endsAsDirectory_of_resolved {p : Path} (hp : p.Resolved) (hne : p.place ≠ []) :
    endsAsDirectory p = false := by
  obtain ⟨⟨front, -, he⟩, hnames⟩ := Path.components_eq_place hp.components
  obtain ⟨init, s, hinit⟩ := (List.eq_nil_or_concat p.place).resolve_left hne
  have hs : IsEntryName s := hnames s (by simp [hinit])
  obtain ⟨lead, hlead⟩ := Path.exists_ofComponents_snoc (front ++ init.map .name)
  have htext : p.text = lead ++ s := by
    rw [← hp.written, he, hinit, List.concat_eq_append, List.map_append, List.map_singleton,
      ← List.append_assoc, hlead]
  rw [endsAsDirectory, htext, Path.endsWith_append hs.1 hs.2.2.2, Path.endsWith_here_append hs]
  rfl

/-- Where a file stands something is there, and no directory. -/
theorem WellFormed.contains_of_contentAt? (h : t.WellFormed) {p : Path} (hp : p.Rooted)
    (hc : (t.contentAt? p.place).isSome = true) :
    t.contains p = true ∧ t.isDirectory p = false := by
  have hfile := isDirectoryAt_of_contentAt? _ hc
  have hne : p.place ≠ [] := fun hnil => by rw [hnil] at hc; cases hc
  constructor
  · refine (h.contains_iff hp.resolved.components).2
      ⟨?_, isSome_entryAt?_iff.2 (.inr hc), fun hends => ?_⟩
    · rw [hp.components_eq]
      exact List.cons_ne_nil _ _
    · rw [endsAsDirectory_of_resolved hp.resolved hne] at hends
      cases hends
  · rw [← Bool.not_eq_true, h.isDirectory_iff hp.resolved.components, hfile]
    exact fun ⟨_, hdir⟩ => nomatch hdir

/-- Where something is there and no directory a file stands. -/
theorem WellFormed.contentAt?_of_contains (h : t.WellFormed) {p : Path} (hp : p.Resolved)
    (hthere : t.contains p = true) (hfile : t.isDirectory p = false) :
    (t.contentAt? p.place).isSome = true := by
  obtain ⟨hne, hsome, -⟩ := (h.contains_iff hp.components).1 hthere
  refine (isSome_entryAt?_iff.1 hsome).resolve_left fun hdir => ?_
  rw [(h.isDirectory_iff hp.components).2 ⟨hne, hdir⟩] at hfile
  cases hfile

end FileTree

end IpcWiring
