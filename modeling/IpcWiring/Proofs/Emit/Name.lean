import Mathlib.Data.List.Nodup
import Mathlib.Data.List.Perm.Subperm
import IpcWiring.Emit.Service

/-!
# Names that are made are distinct

A base has more candidates than there are names that are taken, so a fresh name is none of those
(`freshName_notMem`), and the names that are made for a list are distinct (`nodup_freshNames`).
-/

namespace IpcWiring.Emit

variable {base name : String} {taken names : List String}

/-- A number can be read off its digits. -/
theorem toString_nat_injective : Function.Injective (toString : Nat → String) := by
  intro m n h
  rw [Nat.toString_eq_ofList_toDigits, Nat.toString_eq_ofList_toDigits,
    String.ofList_inj] at h
  rw [← Nat.ofDigitChars_ten_toDigits (n := m), h, Nat.ofDigitChars_ten_toDigits]

/-- The candidates for a base are distinct. -/
theorem nodup_candidateNames (base : String) (count : Nat) :
    (candidateNames base count).Nodup := by
  have hcancel {m n : Nat} (h : base ++ toString m = base ++ toString n) : m = n := by
    have hchars := congrArg String.toList h
    rw [String.toList_append, String.toList_append] at hchars
    exact toString_nat_injective (String.toList_inj.1 (List.append_cancel_left hchars))
  refine List.nodup_cons.2 ⟨fun h => ?_, List.Nodup.map (fun m n => hcancel) List.nodup_range'⟩
  obtain ⟨n, -, hn⟩ := List.mem_map.1 h
  have hlength := congrArg String.length hn
  rw [String.length_append, Nat.toString_eq_repr] at hlength
  have hpos := Nat.length_repr_pos (n := n)
  omega

theorem length_candidateNames (base : String) (count : Nat) :
    (candidateNames base count).length = count + 1 := by
  simp [candidateNames]

/-- Some candidate is not taken. -/
theorem exists_candidate (base : String) (taken : List String) :
    ∃ c ∈ candidateNames base taken.length, c ∉ taken := by
  by_contra! h
  have hlength := (List.subperm_of_subset (nodup_candidateNames base taken.length) h).length_le
  rw [length_candidateNames] at hlength
  omega

/-- A fresh name is the first candidate that is not taken. -/
theorem find?_candidateNames (taken : List String) (name : String) :
    (candidateNames (Text.pascal name) taken.length).find? (!taken.contains ·) =
      some (freshName taken name) := by
  obtain ⟨c, hc, hnew⟩ := exists_candidate (Text.pascal name) taken
  have hsome : ((candidateNames (Text.pascal name) taken.length).find?
      (!taken.contains ·)).isSome := List.find?_isSome.2 ⟨c, hc, by simpa using hnew⟩
  obtain ⟨fresh, hfresh⟩ := Option.isSome_iff_exists.1 hsome
  simp only [freshName, hfresh, Option.getD_some]

/-- A fresh name is not taken. -/
theorem freshName_notMem (taken : List String) (name : String) : freshName taken name ∉ taken := by
  simpa using List.find?_some (find?_candidateNames taken name)

/-- Fresh names are not taken. -/
theorem freshNames_notMem {fresh : String} (h : fresh ∈ freshNames taken names) :
    fresh ∉ taken := by
  induction names generalizing taken with
  | nil => cases h
  | cons name rest ih =>
    obtain rfl | h := List.mem_cons.1 h
    · exact freshName_notMem taken name
    · exact fun htaken => ih h (List.mem_cons_of_mem _ htaken)

/-- Fresh names are distinct. -/
theorem nodup_freshNames (taken names : List String) : (freshNames taken names).Nodup := by
  induction names generalizing taken with
  | nil => exact List.nodup_nil
  | cons name rest ih =>
    exact List.nodup_cons.2 ⟨fun h => freshNames_notMem h List.mem_cons_self, ih _⟩

/-- There are as many fresh names as names. -/
theorem length_freshNames : (freshNames taken names).length = names.length := by
  induction names generalizing taken with
  | nil => rfl
  | cons name rest ih => simp [freshNames, ih]

/-- There is one method of the service for each function, so what does not depend on the names of
types is made of the functions. -/
theorem ServiceModule.map_methods {β : Type} {g : ServiceMethod → β} {k : ApiFunction → β}
    {o : Options} (h : ∀ f typeName, g (.of o f typeName) = k f) {dir : Path}
    {records : List ApiRecord} :
    (ServiceModule.of dir o records).methods.map g = (Record.placed records).map (k ·.2) := by
  have hlength : (Record.placed records).length ≤
      (freshNames [] ((Record.placed records).map (·.2.name))).length := by
    simp [length_freshNames]
  rw [ServiceModule.of, List.map_zipWith]
  simp only [h]
  rw [← List.map_uncurry_zip_eq_zipWith]
  conv_rhs => rw [← List.map_fst_zip hlength, List.map_map]
  rfl

end IpcWiring.Emit
