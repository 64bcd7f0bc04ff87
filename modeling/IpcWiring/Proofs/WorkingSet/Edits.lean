import IpcWiring.Proofs.WorkingSet.Sorted

/-!
# Edits of records

A change of a file or directory edits the records of its kind (`Record.Edit`): the records of a
directory go, or those of a file are replaced. Edits are compatible (`Record.Compatible`) when no
file is replaced that lies below a directory that goes, and no file is replaced in two ways. Which
records are there after a list of compatible edits only depends on which edits are among them
(`Record.mem_foldl_apply`), so neither their order nor their number counts
(`Record.foldl_apply_congr`).
-/

namespace IpcWiring.Record

variable {α : Type}

/-- A change of some records. -/
inductive Edit (α : Type) where
  /-- The records of the path, and of all below it, go. -/
  | remove (path : Path)
  /-- The records of the path are replaced. -/
  | replace (path : Path) (found : List (Record α))

namespace Edit

/-- The edit drops what was recorded of the path. -/
def Drops : Edit α → Path → Prop
  | remove dir, p => dir.isWithin p = true
  | replace path _, p => path.components = p.components

/-- The records that the edit puts in. -/
def found : Edit α → List (Record α)
  | remove _ => []
  | replace _ found => found

/-- The records after the edit. -/
def apply [Named α] (records : List (Record α)) : Edit α → List (Record α)
  | remove path => Record.remove records path
  | replace path found => sortAll (merge records [path] found)

end Edit

variable [Named α] {records : List (Record α)} {e : Edit α} {edits others : List (Edit α)}

/-- Every edit of a file puts in distinct records of the file, always the same ones, and no
directory goes that a replaced file lies in. -/
structure Compatible (edits : List (Edit α)) : Prop where
  distinct : ∀ {p found}, .replace p found ∈ edits → IsDistinct found
  path_eq : ∀ {p found}, .replace p found ∈ edits → ∀ r ∈ found, r.path = p
  found_eq : ∀ {p q found other}, .replace p found ∈ edits → .replace q other ∈ edits →
    p.components = q.components → found = other
  kept : ∀ {p found dir}, .replace p found ∈ edits → .remove dir ∈ edits → dir.isWithin p = false

/-- Some of compatible edits are compatible. -/
theorem Compatible.subset (h : Compatible edits) (hsub : others ⊆ edits) : Compatible others where
  distinct hp := h.distinct (hsub hp)
  path_eq hp := h.path_eq (hsub hp)
  found_eq hp hq := h.found_eq (hsub hp) (hsub hq)
  kept hp hd := h.kept (hsub hp) (hsub hd)

/-! ## One edit -/

/-- An edit keeps sorted records sorted. -/
theorem IsSorted.apply (h : IsSorted records) (hc : Compatible edits) (he : e ∈ edits) :
    IsSorted (e.apply records) := by
  cases e with
  | remove path => exact h.remove path
  | replace path found =>
    refine (h.isDistinct.merge (hc.distinct he) fun r hr => ?_).isSorted_sortAll
    exact List.mem_singleton.2 (hc.path_eq he r hr)

/-- After an edit there are the records that it puts in and those that it does not drop. -/
theorem IsSorted.mem_apply (h : IsSorted records) {r : Record α} : r ∈ e.apply records ↔
    (∃ s ∈ e.found, s.sortEntries = r) ∨ r ∈ records ∧ ¬ e.Drops r.path := by
  cases e with
  | remove path => simp [Edit.apply, Edit.found, Edit.Drops, mem_remove]
  | replace path found =>
    simp only [Edit.apply, Edit.found, Edit.Drops, mem_sortAll, mem_merge, List.mem_singleton,
      forall_eq]
    constructor
    · rintro ⟨s, ⟨hs, hne⟩ | hs, rfl⟩
      · refine .inr ⟨?_, hne⟩
        rw [sortEntries_eq_self (h.names s hs)]
        exact hs
      · exact .inl ⟨s, hs, rfl⟩
    · rintro (⟨s, hs, rfl⟩ | ⟨hr, hne⟩)
      · exact ⟨s, .inr hs, rfl⟩
      · exact ⟨r, .inl ⟨hr, hne⟩, sortEntries_eq_self (h.names r hr)⟩

/-! ## Lists of edits -/

/-- Edits keep sorted records sorted. -/
theorem IsSorted.foldl_apply (h : IsSorted records) (hc : Compatible edits) :
    IsSorted (edits.foldl Edit.apply records) := by
  induction edits generalizing records with
  | nil => exact h
  | cons e edits ih =>
    exact ih (h.apply hc List.mem_cons_self) (hc.subset (List.subset_cons_self e edits))

/-- What an edit puts in is put in again by each compatible edit that drops it. -/
theorem Compatible.found_of_drops (hc : Compatible edits) {e' : Edit α} (he : e ∈ edits)
    (he' : e' ∈ edits) {r : Record α} (hr : r ∈ e.found) (hdrops : e'.Drops r.path) :
    r ∈ e'.found := by
  cases e with
  | remove path => exact absurd hr (List.not_mem_nil)
  | replace path found =>
    rw [hc.path_eq he r hr] at hdrops
    cases e' with
    | remove dir =>
      rw [Edit.Drops, hc.kept he he'] at hdrops
      cases hdrops
    | replace q other => exact hc.found_eq he he' (Eq.symm hdrops) ▸ hr

/-- After compatible edits there are the records that one of them puts in and those that none of
them drops. -/
theorem mem_foldl_apply (h : IsSorted records) (hc : Compatible edits) {r : Record α} :
    r ∈ edits.foldl Edit.apply records ↔
      (∃ e ∈ edits, ∃ s ∈ e.found, s.sortEntries = r) ∨
        r ∈ records ∧ ∀ e ∈ edits, ¬ e.Drops r.path := by
  induction edits generalizing records with
  | nil => simp
  | cons e edits ih =>
    have hrest := hc.subset (List.subset_cons_self e edits)
    rw [List.foldl_cons, ih (h.apply hc List.mem_cons_self) hrest, h.mem_apply]
    simp only [List.mem_cons, exists_eq_or_imp, forall_eq_or_imp]
    constructor
    · rintro (hlater | ⟨hfirst | ⟨hr, hkept⟩, hrest⟩)
      · exact .inl (.inr hlater)
      · exact .inl (.inl hfirst)
      · exact .inr ⟨hr, hkept, hrest⟩
    · rintro ((⟨s, hs, rfl⟩ | hlater) | ⟨hr, hkept, hrest⟩)
      · -- what the first edit puts in may be dropped later, but then it is put in again
        by_cases hdropped : ∃ e' ∈ edits, e'.Drops s.path
        · obtain ⟨e', he', hdrops⟩ := hdropped
          have hs' := hc.found_of_drops List.mem_cons_self (List.mem_cons_of_mem e he') hs hdrops
          exact .inl ⟨e', he', s, hs', rfl⟩
        · exact .inr ⟨.inl ⟨s, hs, rfl⟩, fun e' he' hdrops => hdropped ⟨e', he', hdrops⟩⟩
      · exact .inl hlater
      · exact .inr ⟨.inr ⟨hr, hkept⟩, hrest⟩

/-- Compatible edits do the same in any order and any number. -/
theorem foldl_apply_congr (h : IsSorted records) (hc : Compatible edits)
    (hmem : ∀ e, e ∈ edits ↔ e ∈ others) :
    edits.foldl Edit.apply records = others.foldl Edit.apply records := by
  have hc' : Compatible others := hc.subset fun e he => (hmem e).2 he
  refine (h.foldl_apply hc).ext (h.foldl_apply hc') fun r => ?_
  rw [mem_foldl_apply h hc, mem_foldl_apply h hc']
  simp only [hmem]

end IpcWiring.Record
