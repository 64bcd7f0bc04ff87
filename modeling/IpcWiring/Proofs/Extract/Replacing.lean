import IpcWiring.Proofs.Extract.Flattening
import IpcWiring.Proofs.Program.Closure

/-!
# Records of files that are extracted again

Extracting the functions of some files takes the records of these files away and puts the new ones
behind what is left (`extractApi_records`). A file that can be read has a new record for each time
that it was asked for, however its path was spelled, and one that cannot be read has none. So the
paths of the records stay distinct just if no file that can be read was asked for twice.
-/

namespace IpcWiring

variable {α : Type} {p : Program} {paths : List Path}

/-! ## Paths -/

/-- Whether a file is loaded does not hang on how its path is spelled. -/
theorem Program.isLoaded_congr {q r : Path} (h : q.components = r.components) :
    p.isLoaded q = p.isLoaded r := by
  simp only [Program.isLoaded, Path.beq_eq_decide, h]

/-- Of the paths that are loaded there are as many of one path as of all, or none. -/
theorem Program.countP_filter_isLoaded (q : Path) :
    (paths.filter p.isLoaded).countP (· == q) =
      if p.isLoaded q then paths.countP (· == q) else 0 := by
  rw [List.countP_filter]
  split
  · next hloaded =>
    refine List.countP_congr fun r _ => ?_
    rw [Bool.and_eq_true, and_iff_left_iff_imp]
    exact fun h => isLoaded_congr (Path.beq_iff.1 h) ▸ hloaded
  · next hloaded =>
    rw [List.countP_eq_zero]
    intro r _ h
    obtain ⟨heq, hr⟩ := Bool.and_eq_true_iff.1 h
    exact hloaded (isLoaded_congr (Path.beq_iff.1 heq) ▸ hr)

/-! ## New records -/

/-- The new records have the paths of the files that are loaded, in order. -/
theorem map_path_extractFiles (p : Program) (extract : Path → SourceModule → List α × List Skipped)
    (paths : List Path) :
    (extractFiles p extract paths).records.map (·.path) = paths.filter p.isLoaded := by
  induction paths with
  | nil => rfl
  | cons path paths ih =>
    rw [List.filter_cons, ← ih, Disk.isLoaded_eq_isSome]
    cases hm : p.module? path <;> simp [extractFiles, hm]

/-- There are as many records of a path as the path has among those of the records. -/
theorem countP_path (records : List (Record α)) (q : Path) :
    records.countP (·.path == q) = (records.map (·.path)).countP (· == q) := by
  rw [List.countP_map]
  rfl

/-- Records are put in the place of those of a path: what was there before does not count. -/
theorem Record.countP_merge {records updated : List (Record α)} {q : Path} (hq : q ∈ paths) :
    (merge records paths updated).countP (·.path == q) = updated.countP (·.path == q) := by
  rw [merge, List.countP_append, Nat.add_eq_right, List.countP_eq_zero]
  intro r hr heq
  simp only [List.mem_filter, Bool.not_eq_true', List.any_eq_false] at hr
  exact hr.2 q hq (Path.beq_iff.2 (Path.beq_iff.1 heq).symm)

/-- Distinct records stay distinct just if those that are put in their place are. -/
theorem Record.pairwise_merge_iff {records updated : List (Record α)}
    (hrecords : records.Pairwise fun r s => r.path.components ≠ s.path.components)
    (hpaths : ∀ r ∈ updated, r.path ∈ paths) :
    ((merge records paths updated).Pairwise fun r s => r.path.components ≠ s.path.components) ↔
      updated.Pairwise fun r s => r.path.components ≠ s.path.components := by
  rw [merge, List.pairwise_append]
  refine ⟨fun h => h.2.1,
    fun h => ⟨hrecords.sublist List.filter_sublist, h, fun r hr s hs heq => ?_⟩⟩
  simp only [List.mem_filter, Bool.not_eq_true', List.any_eq_false] at hr
  exact hr.2 s.path (hpaths s hs) (Path.beq_iff.2 heq.symm)

/-- **There is one record for each time that a file was asked for.** What is extracted from files
stands behind the records of other files, which stay as they are and in order. Each new record is
what is extracted from one of the files. A file that was asked for has as many records as it was
asked for, under whatever spelling, if it can be read, and else none. So of distinct records the
paths stay distinct just if no two of the files that can be read are the same. -/
theorem extractApi_records (rules : ApiRules) (p : Program) (paths : List Path)
    {existing : List ApiRecord}
    (hexisting : existing.Pairwise fun r s => r.path.components ≠ s.path.components) :
    (∃ fresh : List ApiRecord, (extractApi rules p paths existing).records =
        existing.filter (fun r => !(paths.map Path.normalize).any (· == r.path)) ++ fresh ∧
      fresh.map (·.path) = (paths.map Path.normalize).filter p.isLoaded ∧
      ∀ r ∈ fresh, ∃ m, p.module? r.path = some m ∧
        r.entries = (apiFunctions rules p r.path m).1) ∧
    (∀ q ∈ paths.map Path.normalize,
      (extractApi rules p paths existing).records.countP (·.path == q) =
        if p.isLoaded q then (paths.map Path.normalize).countP (· == q) else 0) ∧
    (((extractApi rules p paths existing).records.Pairwise fun r s =>
        r.path.components ≠ s.path.components) ↔
      ((paths.map Path.normalize).filter p.isLoaded).Pairwise fun q r =>
        q.components ≠ r.components) := by
  have hfresh := map_path_extractFiles p (apiFunctions rules p) (paths.map Path.normalize)
  refine ⟨⟨_, rfl, hfresh, fun r hr => ?_⟩, fun q hq => ?_, ?_⟩
  · obtain ⟨path, -, m, hm, rfl⟩ := mem_extractFiles.1 hr
    exact ⟨m, hm, rfl⟩
  · rw [extractApi, Record.countP_merge hq, countP_path, hfresh, Program.countP_filter_isLoaded]
  · rw [extractApi, Record.pairwise_merge_iff hexisting, ← hfresh, List.pairwise_map]
    intro r hr
    obtain ⟨path, hpath, m, -, rfl⟩ := mem_extractFiles.1 hr
    exact hpath

/-- A file that is asked for under two spellings has two records, next to that of another file. -/
theorem extractApi_records_small :
    ∃ existing : List ApiRecord, existing.length = 1 ∧
      (existing.Pairwise fun r s => r.path.components ≠ s.path.components) ∧
      (extractApi smallRules smallProgram [⟨"/src/f.ts"⟩, ⟨"/src/./f.ts"⟩] existing).records.countP
        (·.path == ⟨"/src/f.ts"⟩) = 2 ∧
      ¬ (extractApi smallRules smallProgram [⟨"/src/f.ts"⟩, ⟨"/src/./f.ts"⟩]
        existing).records.Pairwise fun r s => r.path.components ≠ s.path.components := by
  have htexts : ["/src/f.ts", "/src/./f.ts"].map (fun text => (Path.mk text).normalize.text) =
      ["/src/f.ts", "/src/f.ts"] := by decide +kernel
  have hpaths : [⟨"/src/f.ts"⟩, ⟨"/src/./f.ts"⟩].map Path.normalize =
      [⟨"/src/f.ts"⟩, ⟨"/src/f.ts"⟩] := congrArg (List.map Path.mk) htexts
  have hloaded : smallProgram.isLoaded ⟨"/src/f.ts"⟩ = true := by decide +kernel
  have hexisting : ([⟨⟨"/src/a.ts"⟩, []⟩] : List ApiRecord).Pairwise fun r s =>
      r.path.components ≠ s.path.components := List.pairwise_singleton _ _
  obtain ⟨-, hcount, hdistinct⟩ := extractApi_records smallRules smallProgram
    [⟨"/src/f.ts"⟩, ⟨"/src/./f.ts"⟩] hexisting
  rw [hpaths] at hcount hdistinct
  refine ⟨[⟨⟨"/src/a.ts"⟩, []⟩], rfl, hexisting, ?_, fun h => ?_⟩
  · rw [hcount _ List.mem_cons_self, hloaded]
    decide +kernel
  · have hrepeated := hdistinct.1 h
    simp [hloaded] at hrepeated

end IpcWiring
