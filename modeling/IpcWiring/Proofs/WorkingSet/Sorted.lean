import Mathlib.Data.List.Nodup
import Mathlib.Data.List.Pairwise
import IpcWiring.Proofs.Path.Order
import IpcWiring.WorkingSet.Basic

/-!
# Sorted records

Records are sorted (`Record.IsSorted`) when their paths ascend strictly and the names of the entries
of each ascend strictly. Sorting records that are distinct in both respects (`Record.IsDistinct`)
makes them sorted (`Record.IsDistinct.isSorted_sortAll`). Sorted records are determined by which
records are among them (`Record.IsSorted.ext`), and sorting them again changes nothing. Removing the
records of a directory keeps them sorted, merging the records of some files keeps them distinct.
-/

namespace IpcWiring

/-! ## The order of names -/

namespace Text

/-- A name does not come after another unless the other comes before it. -/
theorem le_iff {a b : String} : le a b = true ↔ ¬ b < a := by
  simp [le]

/-- The order of names is transitive. -/
theorem le_trans (a b c : String) (hab : le a b = true) (hbc : le b c = true) : le a c = true := by
  rw [le_iff, String.not_lt] at *
  exact String.le_trans hab hbc

/-- Of two names one does not come after the other. -/
theorem le_total (a b : String) : (le a b || le b a) = true := by
  rw [Bool.or_eq_true, le_iff, le_iff, String.not_lt, String.not_lt]
  exact String.le_total a b

/-- A name that does not come after another one comes before it or is the same. -/
theorem lt_of_le_of_ne {a b : String} (hle : le a b = true) (hne : a ≠ b) : a < b := by
  by_contra h
  exact hne (String.le_antisymm (String.not_lt.1 (le_iff.1 hle)) (String.not_lt.1 h))

/-- A name that comes before another one does not come after it. -/
theorem le_of_lt {a b : String} (h : a < b) : le a b = true := le_iff.2 (String.lt_asymm h)

end Text

namespace Record

variable {α : Type} [Named α] {records : List (Record α)}

/-! ## Sorted and distinct records -/

/-- The paths ascend strictly, and so do the names within each record. -/
structure IsSorted (records : List (Record α)) : Prop where
  paths : records.Pairwise fun r s => r.path.cmp s.path = .lt
  names : ∀ r ∈ records, r.entries.Pairwise fun a b => Named.name a < Named.name b

/-- No two records have one path, and no two entries of a record have one name. -/
structure IsDistinct (records : List (Record α)) : Prop where
  paths : records.Pairwise fun r s => r.path.components ≠ s.path.components
  names : ∀ r ∈ records, (r.entries.map Named.name).Nodup

/-- Sorted records are distinct. -/
theorem IsSorted.isDistinct (h : IsSorted records) : IsDistinct records where
  paths := h.paths.imp Path.components_ne
  names r hr := by
    refine List.pairwise_map.2 ((h.names r hr).imp fun {a b} hab he => ?_)
    exact String.lt_irrefl _ (he ▸ hab)

/-- No records are sorted. -/
theorem isSorted_nil : IsSorted ([] : List (Record α)) := ⟨.nil, nofun⟩

/-- Some of the records of a sorted list, in order, are sorted. -/
theorem IsSorted.sublist {kept : List (Record α)} (h : IsSorted records)
    (hsub : kept.Sublist records) : IsSorted kept :=
  ⟨h.paths.sublist hsub, fun r hr => h.names r (hsub.subset hr)⟩

/-- Some of the records of a distinct list are distinct. -/
theorem IsDistinct.sublist {kept : List (Record α)} (h : IsDistinct records)
    (hsub : kept.Sublist records) : IsDistinct kept :=
  ⟨h.paths.sublist hsub, fun r hr => h.names r (hsub.subset hr)⟩

/-- Sorted records are determined by which records they are. -/
theorem IsSorted.ext {others : List (Record α)} (h : IsSorted records) (ho : IsSorted others)
    (hmem : ∀ r, r ∈ records ↔ r ∈ others) : records = others := by
  have hnodup : ∀ {rs : List (Record α)}, IsSorted rs → rs.Nodup := fun hrs =>
    hrs.isDistinct.paths.imp fun hne he => hne (congrArg (fun r => r.path.components) he)
  refine List.Perm.eq_of_pairwise (fun r s _ _ hrs hsr => ?_) h.paths ho.paths
    ((List.perm_ext_iff_of_nodup (hnodup h) (hnodup ho)).2 hmem)
  have hswap : r.path.cmp s.path = (s.path.cmp r.path).swap := Std.OrientedCmp.eq_swap
  rw [hswap, hsr] at hrs
  cases hrs

/-! ## Sorting -/

/-- Sorting entries keeps the path. -/
@[simp] theorem path_sortEntries (r : Record α) : r.sortEntries.path = r.path := rfl

/-- Entries of distinct names are sorted into strict order. -/
theorem pairwise_sortEntries {r : Record α} (h : (r.entries.map Named.name).Nodup) :
    r.sortEntries.entries.Pairwise fun a b => Named.name a < Named.name b := by
  have hle := @List.pairwise_mergeSort α (fun a b => Text.le (Named.name a) (Named.name b))
    (fun a b c => Text.le_trans _ _ _) (fun a b => Text.le_total _ _) r.entries
  have hne : r.sortEntries.entries.Pairwise fun a b => Named.name a ≠ Named.name b :=
    (List.mergeSort_perm r.entries _).symm.pairwise (List.pairwise_map.1 h) fun h => h.symm
  exact (hle.and hne).imp fun h => Text.lt_of_le_of_ne h.1 h.2

/-- Entries in strict order are not moved. -/
theorem sortEntries_eq_self {r : Record α}
    (h : r.entries.Pairwise fun a b => Named.name a < Named.name b) : r.sortEntries = r := by
  have he : r.sortEntries.entries = r.entries :=
    List.mergeSort_of_pairwise (h.imp Text.le_of_lt)
  cases r
  exact congrArg _ he

/-- The records after sorting are those before with sorted entries. -/
theorem mem_sortAll {r : Record α} : r ∈ sortAll records ↔ ∃ s ∈ records, s.sortEntries = r := by
  simp [sortAll]

/-- Distinct records are sorted into strict order. -/
theorem IsDistinct.isSorted_sortAll (h : IsDistinct records) : IsSorted (sortAll records) where
  paths := by
    have hle := @List.pairwise_mergeSort (Record α) (fun r s => r.path.le s.path)
      (fun r s t => Path.le_trans _ _ _) (fun r s => Path.le_total _ _) records
    have hne := (List.mergeSort_perm records fun r s => r.path.le s.path).symm.pairwise h.paths
      fun h => h.symm
    exact List.pairwise_map.2 ((hle.and hne).imp fun h => Path.cmp_eq_lt h.1 h.2)
  names r hr := by
    obtain ⟨s, hs, rfl⟩ := mem_sortAll.1 hr
    exact pairwise_sortEntries (h.names s hs)

/-- Sorting changes nothing on sorted records. -/
theorem IsSorted.sortAll_eq_self (h : IsSorted records) : sortAll records = records := by
  refine h.isDistinct.isSorted_sortAll.ext h fun r => ?_
  rw [mem_sortAll]
  constructor
  · rintro ⟨s, hs, rfl⟩
    rwa [sortEntries_eq_self (h.names s hs)]
  · exact fun hr => ⟨r, hr, sortEntries_eq_self (h.names r hr)⟩

/-! ## Removing and merging -/

omit [Named α] in
/-- What is left after the records of a directory were removed. -/
theorem mem_remove {path : Path} {r : Record α} :
    r ∈ remove records path ↔ r ∈ records ∧ path.isWithin r.path = false := by
  simp [remove]

/-- What is left after removing is in order. -/
theorem IsSorted.remove (h : IsSorted records) (path : Path) : IsSorted (remove records path) :=
  h.sublist List.filter_sublist

omit [Named α] in
/-- What is there after merging: records of other paths, and those that were put in. -/
theorem mem_merge {paths : List Path} {updated : List (Record α)} {r : Record α} :
    r ∈ merge records paths updated ↔
      (r ∈ records ∧ ∀ p ∈ paths, p.components ≠ r.path.components) ∨ r ∈ updated := by
  simp [merge, Path.beq_eq_decide]

/-- Merging distinct records of the given paths keeps records distinct. -/
theorem IsDistinct.merge (h : IsDistinct records) {paths : List Path} {updated : List (Record α)}
    (hu : IsDistinct updated) (hpaths : ∀ r ∈ updated, r.path ∈ paths) :
    IsDistinct (merge records paths updated) where
  paths := by
    refine List.pairwise_append.2
      ⟨h.paths.sublist List.filter_sublist, hu.paths, fun r hr s hs => ?_⟩
    have hr := (List.mem_filter.1 hr).2
    simp only [Path.beq_eq_decide, Bool.not_eq_true', List.any_eq_false, decide_eq_true_iff] at hr
    exact Ne.symm (hr s.path (hpaths s hs))
  names r hr := by
    rcases mem_merge.1 hr with ⟨hr, -⟩ | hr
    exacts [h.names r hr, hu.names r hr]

end Record

/-! ## Sorted working sets -/

namespace WorkingSet

/-- The records of functions are sorted, and those of events. -/
structure IsSorted (w : WorkingSet) : Prop where
  api : Record.IsSorted w.api
  events : Record.IsSorted w.events

/-- Working sets are the same if their functions are, their events are, and both or neither have a
directory for them. -/
theorem ext_events {set set' : WorkingSet} (hapi : set.api = set'.api)
    (hevents : set.events = set'.events) (hsome : set.events?.isSome = set'.events?.isSome) :
    set = set' := by
  obtain ⟨api, _ | events⟩ := set <;> obtain ⟨api', _ | events'⟩ := set' <;>
    simp_all [WorkingSet.events]

/-- Where there is an event there is a directory for events. -/
theorem isSome_of_mem_events {w : WorkingSet} {r : EventRecord} (h : r ∈ w.events) :
    w.events?.isSome = true := by
  cases he : w.events? with
  | none => rw [events, he] at h; cases h
  | some => rfl

/-- The working set without records is sorted. -/
theorem isSorted_empty : IsSorted .empty := ⟨Record.isSorted_nil, Record.isSorted_nil⟩

/-- Sorting the functions of a sorted working set changes nothing. -/
theorem IsSorted.sortAll_api {w : WorkingSet} (h : w.IsSorted) : Record.sortAll w.api = w.api :=
  h.api.sortAll_eq_self

/-- Sorting the events of a sorted working set changes nothing. -/
theorem IsSorted.map_sortAll_events? {w : WorkingSet} (h : w.IsSorted) :
    w.events?.map Record.sortAll = w.events? := by
  cases he : w.events? with
  | none => rfl
  | some events =>
    have hs := h.events
    rw [WorkingSet.events, he, Option.getD_some] at hs
    rw [Option.map_some, hs.sortAll_eq_self]

end WorkingSet

end IpcWiring
