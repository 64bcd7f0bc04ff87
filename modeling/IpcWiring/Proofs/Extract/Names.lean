import Mathlib.Data.List.Nodup
import IpcWiring.Extract.Events
import IpcWiring.Proofs.SourceModule
import IpcWiring.Proofs.WorkingSet.Sorted

/-!
# Names of extracted entries

The entries of one file have distinct names. Of functions with one name only the first can be
extracted, because `markRepeated` marks the others (`nodup_apiFunctions`); aliases are kept in a map
from their names (`SourceModule.AliasesNamed`, `nodup_apiEvents`). So the records of distinct files
are distinct (`isDistinct_extractFiles`).
-/

namespace IpcWiring

open Script

/-! ## Maps from names -/

namespace NameMap

variable {α : Type} {name : String} {value : α}

/-- Putting in a value adds no name but its own. -/
theorem mem_insertEntry {e : String × α} : ∀ {entries : List (String × α)},
    e ∈ insertEntry name value entries → e = (name, value) ∨ e ∈ entries
  | [], h => .inl (List.mem_singleton.1 h)
  | (k, v) :: rest, h => by
    rw [insertEntry] at h
    split at h
    · next hk =>
      rcases List.mem_cons.1 h with rfl | h
      · exact .inl (by rw [beq_iff_eq.1 hk])
      · exact .inr (List.mem_cons_of_mem _ h)
    · rcases List.mem_cons.1 h with rfl | h
      · exact .inr List.mem_cons_self
      · exact (mem_insertEntry h).imp_right (List.mem_cons_of_mem _)

/-- Putting in a value keeps names distinct. -/
theorem nodup_insertEntry : ∀ {entries : List (String × α)}, (entries.map (·.1)).Nodup →
    ((insertEntry name value entries).map (·.1)).Nodup
  | [], _ => by simp [insertEntry]
  | (k, v) :: rest, h => by
    rw [List.map_cons, List.nodup_cons] at h
    rw [insertEntry]
    split
    · simpa using h
    · next hk =>
      rw [List.map_cons, List.nodup_cons]
      refine ⟨fun hmem => ?_, nodup_insertEntry h.2⟩
      obtain ⟨e, he, heq⟩ := List.mem_map.1 hmem
      rcases mem_insertEntry he with rfl | he
      · exact hk (beq_iff_eq.2 heq.symm)
      · exact h.1 (List.mem_map.2 ⟨e, he, heq⟩)

/-- A name with a value is among the entries. -/
theorem mem_of_lookup : ∀ {entries : List (String × α)},
    entries.lookup name = some value → (name, value) ∈ entries
  | (k, v) :: rest, h => by
    rw [List.lookup_cons] at h
    split at h
    · next hk =>
      cases h
      rw [beq_iff_eq.1 hk]
      exact List.mem_cons_self
    · exact List.mem_cons_of_mem _ (mem_of_lookup h)

end NameMap

namespace SourceModule

/-! ## Aliases of a module -/

/-- Every alias is kept once, under its own name. -/
structure AliasesNamed (m : SourceModule) : Prop where
  nodup : m.aliases.keys.Nodup
  name_eq : ∀ e ∈ m.aliases.entries, e.2.name = e.1

/-- The module of some statements keeps aliases under their names. -/
theorem aliasesNamed_ofStatements (path : Path) (statements : List Statement) :
    (ofStatements path statements).AliasesNamed := by
  have haliases : (ofStatements path statements).aliases = _ :=
    congrArg (·.2.2.2) (declared_ofStatements path statements)
  suffices h : ∀ aliases : List AliasDecl, (putAliases .empty aliases).keys.Nodup ∧
      ∀ e ∈ (putAliases .empty aliases).entries, e.2.name = e.1 from
    ⟨haliases ▸ (h _).1, haliases ▸ (h _).2⟩
  intro aliases
  induction aliases using List.reverseRecOn with
  | nil => exact ⟨List.nodup_nil, nofun⟩
  | append_singleton aliases a ih =>
    rw [putAliases, List.foldl_append]
    refine ⟨NameMap.nodup_insertEntry ih.1, fun e he => ?_⟩
    rcases NameMap.mem_insertEntry he with rfl | he
    exacts [rfl, ih.2 e he]

/-- A module that was read has its path, and its aliases under their names. -/
theorem parse?_eq_some {path : Path} {source : String} {m : SourceModule}
    (h : parse? path source = some m) : m.path = path ∧ m.AliasesNamed := by
  obtain ⟨statements, -, rfl⟩ := Option.map_eq_some_iff.1 h
  exact ⟨congrArg (·.1) (declared_ofStatements path statements),
    aliasesNamed_ofStatements path statements⟩

end SourceModule

/-! ## Entries of one file -/

/-- The names of the entries are those of the declarations that may come well, in order. -/
theorem sublist_partitionOutcomes {α β : Type} [Named α] (path : Path) {name : β → String}
    {outcome : β → Except SkipReason α} (kept : β → Bool)
    (h : ∀ x a, outcome x = .ok a → kept x = true ∧ Named.name a = name x) : ∀ xs : List β,
    ((partitionOutcomes path (xs.map fun x => (name x, outcome x))).1.map Named.name).Sublist
      ((xs.filter kept).map name)
  | [] => .slnil
  | x :: xs => by
    have hrest := sublist_partitionOutcomes path kept h xs
    rw [List.map_cons, partitionOutcomes]
    cases ho : outcome x with
    | ok a =>
      obtain ⟨hkept, hname⟩ := h x a ho
      rw [List.filter_cons, if_pos hkept, List.map_cons, List.map_cons, hname]
      exact hrest.cons_cons _
    | error e =>
      exact hrest.trans (((List.sublist_cons_self x xs).filter kept).map _)

/-- An extracted function has the name of its declaration, which no other one had before. -/
theorem apiFunction_eq_ok {rules : ApiRules} {p : Program} {m : SourceModule} {path : Path}
    {repeated : Bool} {f : FunctionDecl} {a : ApiFunction}
    (h : apiFunction rules p m path repeated f = .ok a) : repeated = false ∧ a.name = f.name := by
  cases repeated with
  | true => cases h
  | false =>
    refine ⟨rfl, ?_⟩
    simp only [apiFunction, Bool.false_eq_true, if_false, bind, Except.bind, pure, Except.pure,
      throw, throwThe, MonadExceptOf.throw] at h
    split at h
    · cases h
    · split at h
      · cases h
      · split at h
        · cases h
        · split at h <;> cases h
          rfl

/-- A declaration that is not marked has a name of its own among those and what was seen. -/
theorem nodup_markRepeated : ∀ (seen : List String) (fs : List FunctionDecl),
    (((markRepeated seen fs).filter (!·.1)).map (·.2.name)).Nodup ∧
      ∀ name ∈ ((markRepeated seen fs).filter (!·.1)).map (·.2.name), name ∉ seen
  | _, [] => ⟨List.nodup_nil, nofun⟩
  | seen, f :: rest => by
    obtain ⟨hnodup, hseen⟩ := nodup_markRepeated (f.name :: seen) rest
    cases hf : seen.contains f.name with
    | true =>
      simp only [markRepeated, hf, List.filter_cons, Bool.not_true, Bool.false_eq_true, if_false]
      exact ⟨hnodup, fun name hname hin => hseen name hname (List.mem_cons_of_mem _ hin)⟩
    | false =>
      simp only [markRepeated, hf, List.filter_cons, Bool.not_false, if_true, List.map_cons,
        List.nodup_cons]
      refine ⟨⟨fun hin => hseen _ hin List.mem_cons_self, hnodup⟩, fun name hname hin => ?_⟩
      rcases List.mem_cons.1 hname with rfl | hname
      · simp [hin] at hf
      · exact hseen name hname (List.mem_cons_of_mem _ hin)

/-- The functions of a file have distinct names. -/
theorem nodup_apiFunctions (rules : ApiRules) (p : Program) (path : Path) (m : SourceModule) :
    ((apiFunctions rules p path m).1.map Named.name).Nodup := by
  refine (nodup_markRepeated [] m.functions).1.sublist
    (sublist_partitionOutcomes path (!·.1) (fun x a hx => ?_) _)
  obtain ⟨hrepeated, hname⟩ := apiFunction_eq_ok hx
  exact ⟨by simp [hrepeated], hname⟩

/-- An extracted event has the name of its alias. -/
theorem apiEvent_eq_ok {p : Program} {m : SourceModule} {path : Path} {a : AliasDecl}
    {e : ApiEvent} (h : apiEvent p m path a = .ok e) : e.name = a.name := by
  unfold apiEvent at h
  simp only [bind, Except.bind, pure, Except.pure, throw, throwThe, MonadExceptOf.throw] at h
  repeat' split at h
  all_goals cases h
  rfl

/-- The names of the aliases of a module are the keys. -/
theorem SourceModule.AliasesNamed.nodup_names {m : SourceModule} (h : m.AliasesNamed) :
    (m.aliases.values.map (·.name)).Nodup := by
  have he : m.aliases.values.map (·.name) = m.aliases.keys := by
    rw [NameMap.values, NameMap.keys, List.map_map]
    exact List.map_congr_left fun e he => h.name_eq e he
  exact he ▸ h.nodup

/-- The events of a file have distinct names. -/
theorem nodup_apiEvents {p : Program} {path : Path} {m : SourceModule} (h : m.AliasesNamed) :
    ((apiEvents p path m).1.map Named.name).Nodup := by
  have hsorted : ((m.aliases.values.mergeSort fun a b => a.start ≤ b.start).map (·.name)).Nodup :=
    ((List.mergeSort_perm _ _).map _).nodup_iff.2 h.nodup_names
  refine hsorted.sublist ((sublist_partitionOutcomes path (fun _ => true) (fun a e he => ?_)
    _).trans (List.filter_sublist.map _))
  exact ⟨rfl, apiEvent_eq_ok he⟩

/-! ## Records of files -/

section extractFiles

variable {α : Type} {p : Program} {extract : Path → SourceModule → List α × List Skipped}
  {paths : List Path}

/-- The records that are extracted from files: one for each file with a module. -/
theorem mem_extractFiles {r : Record α} : r ∈ (extractFiles p extract paths).records ↔
    ∃ path ∈ paths, ∃ m, p.module? path = some m ∧ r = ⟨path, (extract path m).1⟩ := by
  simp only [extractFiles, List.filterMap_map, List.mem_filterMap, Function.comp_apply]
  refine exists_congr fun path => and_congr_right fun _ => ?_
  cases p.module? path with
  | none => simp
  | some m => simp [eq_comm]

/-- The records of distinct files are distinct if each file's entries are. -/
theorem isDistinct_extractFiles [Named α]
    (hpaths : paths.Pairwise fun p q => p.components ≠ q.components)
    (hnames : ∀ path m, p.module? path = some m → ((extract path m).1.map Named.name).Nodup) :
    Record.IsDistinct (extractFiles p extract paths).records where
  paths := by
    rw [extractFiles, List.filterMap_map, List.pairwise_filterMap]
    refine hpaths.imp fun {q r} hne b hb c hc => ?_
    cases hq : p.module? q with
    | none => simp [hq] at hb
    | some m =>
      cases hr : p.module? r with
      | none => simp [hr] at hc
      | some m' =>
        obtain rfl : ⟨q, (extract q m).1⟩ = b := by simpa [hq] using hb
        obtain rfl : ⟨r, (extract r m').1⟩ = c := by simpa [hr] using hc
        exact hne
  names r hr := by
    obtain ⟨path, -, m, hm, rfl⟩ := mem_extractFiles.1 hr
    exact hnames path m hm

end extractFiles

end IpcWiring
