import Mathlib.Data.List.Induction
import Mathlib.Data.List.Nodup
import IpcWiring.Distinct

/-!
# The first values of their keys

`firstsBy key as` drops every value of `as` whose key an earlier value has. A list that is built
value by value, where one with a known key is left out, is the same (`firstsBy_eq_foldl`), so a
value at the end changes it only if its key is new (`firstsBy_concat`).
-/

namespace IpcWiring

section
variable {α β : Type} [DecidableEq β] {key : α → β} {as : List α} {a : α} {k : β}

/-- The values whose key no value before them has. -/
def firstsBy (key : α → β) (as : List α) : List α := as.eraseDupsBy fun a b => key b == key a

/-- Values are put at the end of those that were kept, unless they are related to one of these. -/
theorem eraseDupsBy_loop (related : α → α → Bool) (as kept : List α) :
    List.eraseDupsBy.loop related as kept = as.foldl
      (fun kept a => if kept.any (related a) then kept else kept ++ [a]) kept.reverse := by
  induction as generalizing kept with
  | nil => rfl
  | cons a as ih =>
    rw [List.eraseDupsBy.loop, List.foldl_cons, List.any_reverse]
    cases kept.any (related a) with
    | true => exact ih kept
    | false =>
      rw [if_neg Bool.false_ne_true, ← List.reverse_cons]
      exact ih (a :: kept)

/-- The first values of their keys, put together one after another. -/
theorem firstsBy_eq_foldl : firstsBy key as = as.foldl
    (fun kept a => if kept.any (key · == key a) then kept else kept ++ [a]) [] :=
  eraseDupsBy_loop _ as []

/-- A value at the end is kept unless a value that was kept has its key. -/
theorem firstsBy_append_singleton : firstsBy key (as ++ [a]) =
    if key a ∈ (firstsBy key as).map key then firstsBy key as else firstsBy key as ++ [a] := by
  have hany : (firstsBy key as).any (key · == key a) = true ↔
      key a ∈ (firstsBy key as).map key := by simp
  rw [firstsBy_eq_foldl, List.foldl_append, ← firstsBy_eq_foldl, List.foldl_cons, List.foldl_nil]
  exact if_congr hany rfl rfl

/-- Some value of every key is kept. -/
theorem mem_map_firstsBy : k ∈ (firstsBy key as).map key ↔ k ∈ as.map key := by
  induction as using List.reverseRecOn with
  | nil => rfl
  | append_singleton as a ih =>
    rw [firstsBy_append_singleton, List.map_append, List.mem_append, ← ih]
    split
    · next hold =>
      refine ⟨.inl, Or.rec id fun hk => ?_⟩
      rw [List.mem_singleton.1 hk]
      exact hold
    · rw [List.map_append, List.mem_append]

/-- A value at the end is kept just if its key is new. -/
theorem firstsBy_concat : firstsBy key (as ++ [a]) =
    if key a ∈ as.map key then firstsBy key as else firstsBy key as ++ [a] := by
  rw [firstsBy_append_singleton]
  exact if_congr mem_map_firstsBy rfl rfl

/-- No two values that are kept have one key. -/
theorem nodup_map_firstsBy : ((firstsBy key as).map key).Nodup := by
  induction as using List.reverseRecOn with
  | nil => exact List.nodup_nil
  | append_singleton as a ih =>
    rw [firstsBy_append_singleton]
    split
    · exact ih
    · next hnew =>
      rw [List.map_append, List.map_singleton]
      exact List.nodup_append_comm.1 (List.nodup_cons.2 ⟨hnew, ih⟩)

/-- Some value is kept if there is one. -/
theorem firstsBy_eq_nil_iff : firstsBy key as = [] ↔ as = [] := by
  constructor
  · intro h
    rw [List.eq_nil_iff_forall_not_mem]
    intro a ha
    have hkey : key a ∈ (firstsBy key as).map key := mem_map_firstsBy.2 (List.mem_map_of_mem ha)
    rw [h] at hkey
    cases hkey
  · rintro rfl
    rfl

end

end IpcWiring
