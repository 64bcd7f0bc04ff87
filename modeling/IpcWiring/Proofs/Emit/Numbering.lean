import Mathlib.Order.Bounds.Defs
import IpcWiring.Proofs.Emit.Hygiene

/-!
# Names that collide are numbered

A name is made by trying its base, then the base with the numbers from 2 on, until one is free
(`Stops`). As a base has more candidates than there are names that are taken, this ends, and with
the least number that is free (`freshNames_numbered`). So the names that a module makes are
distinct, and they are none of the names that the module has by itself.
-/

namespace IpcWiring.Emit

open Code (declaredOf)

variable {base name fresh : String} {taken : List String} {k : Nat}

/-! ## Trying one name after another -/

/-- The names that are tried for a base, in order. -/
def candidate (base : String) : Nat → String
  | 0 => base
  | k + 1 => base ++ toString (k + 2)

/-- Trying the candidates of a base from the one at a position on stops at a name. -/
inductive Stops (taken : List String) (base : String) : Nat → String → Prop
  | free {k : Nat} (h : candidate base k ∉ taken) : Stops taken base k (candidate base k)
  | next {k : Nat} {fresh : String} (h : candidate base k ∈ taken)
      (hs : Stops taken base (k + 1) fresh) : Stops taken base k fresh

/-- The listed candidates are those that are tried first. -/
theorem getElem_candidateNames {count : Nat} (h : k < (candidateNames base count).length) :
    (candidateNames base count)[k] = candidate base k := by
  cases k with
  | zero => rfl
  | succ k => simp [candidateNames, candidate, Nat.add_comm 2 k]

/-- A fresh name is the first candidate that is not taken, and it comes no later than there are
names that are taken. -/
theorem exists_freshName_eq_candidate (taken : List String) (name : String) :
    ∃ k ≤ taken.length, freshName taken name = candidate (Text.pascal name) k ∧
      ∀ j < k, candidate (Text.pascal name) j ∈ taken := by
  obtain ⟨-, k, hk, hfresh, hbefore⟩ :=
    List.find?_eq_some_iff_getElem.1 (find?_candidateNames taken name)
  refine ⟨k, ?_, ?_, fun j hj => ?_⟩
  · rw [length_candidateNames] at hk
    exact Nat.le_of_lt_succ hk
  · rw [← hfresh, getElem_candidateNames]
  · have hj := hbefore j hj
    rw [getElem_candidateNames] at hj
    simpa using hj

/-- Trying stops at the first candidate that is not taken. -/
theorem stops_of_first (hnew : candidate base k ∉ taken) : ∀ {j : Nat}, j ≤ k →
    (∀ i, j ≤ i → i < k → candidate base i ∈ taken) → Stops taken base j (candidate base k) := by
  intro j hj hbefore
  induction hn : k - j generalizing j with
  | zero =>
    obtain rfl : j = k := by omega
    exact .free hnew
  | succ n ih =>
    exact .next (hbefore j (Nat.le_refl j) (by omega))
      (ih (by omega) (fun i hi => hbefore i (by omega)) (by omega))

/-! ## The names of a module -/

/-- The names for a list are those for its first part, then those for the rest where these are
taken. -/
theorem freshNames_append (taken names more : List String) : freshNames taken (names ++ more) =
    freshNames taken names ++ freshNames ((freshNames taken names).reverse ++ taken) more := by
  induction names generalizing taken with
  | nil => rfl
  | cons name names ih => simp [freshNames, ih]

/-- The methods of the event service have the names that were made, each behind `on`. -/
theorem EventServiceModule.map_name_methods (dir : Path) (records : List EventRecord) :
    (EventServiceModule.of dir records).methods.map (·.name) =
      (freshNames [] ((Record.placed records).map (·.2.name))).map ("on" ++ ·) := by
  have hlength : (freshNames [] ((Record.placed records).map (·.2.name))).length ≤
      (Record.placed records).length := by
    simp [length_freshNames]
  rw [EventServiceModule.of, List.map_zipWith, ← List.map_uncurry_zip_eq_zipWith]
  conv_rhs => rw [← List.map_snd_zip hlength, List.map_map]
  rfl

/-- **Names that are made do not collide.** Names are made one after another, each by trying until
one is free, which ends: the Pascal form of a name if that is free, else that form with the least
number from 2 on that makes it free, and this number is no greater than there are names up to this
one. So they are distinct. The types that the service declares for its functions have names that are
distinct and other than those of its own types and values, and the methods of the event service have
distinct names. -/
theorem freshNames_numbered :
    (∀ names, (freshNames [] names).length = names.length ∧ (freshNames [] names).Nodup) ∧
    (∀ before name after, ∃ fresh later,
      freshNames [] (before ++ name :: after) = freshNames [] before ++ fresh :: later ∧
      Stops (freshNames [] before) (Text.pascal name) 0 fresh ∧
      (Text.pascal name ∉ freshNames [] before → fresh = Text.pascal name) ∧
      (Text.pascal name ∈ freshNames [] before → ∃ n ≤ before.length + 1,
        IsLeast {n | 2 ≤ n ∧ Text.pascal name ++ toString n ∉ freshNames [] before} n ∧
        fresh = Text.pascal name ++ toString n)) ∧
    (∀ o w dir, declaredOf (Artifact.service.code o w dir) =
        "Result" :: (ServiceModule.of dir o w.api).methods.flatMap ServiceMethod.aliasNames ++
          ["IpcApi", "ApiService", "ApiServiceImpl", "apiService"] ∧
      (declaredOf (Artifact.service.code o w dir)).Nodup) ∧
    ∀ (w : WorkingSet) (dir : Path),
      ((EventServiceModule.of dir w.events).methods.map (·.name)).Nodup := by
  refine ⟨fun names => ⟨length_freshNames, nodup_freshNames [] names⟩,
    fun before name after => ?_, fun o w dir => ⟨ServiceModule.declaredOf_code _, ?_⟩,
    fun w dir => ?_⟩
  · obtain ⟨k, hk, hfresh, hbefore⟩ :=
      exists_freshName_eq_candidate (freshNames [] before).reverse name
    have hnew := freshName_notMem (freshNames [] before).reverse name
    simp only [List.length_reverse, length_freshNames, List.mem_reverse] at hk hbefore hnew
    refine ⟨_, _, by rw [freshNames_append, List.append_nil]; rfl, ?_⟩
    rw [hfresh] at hnew ⊢
    refine ⟨stops_of_first hnew (Nat.zero_le k) fun j _ hj => hbefore j hj, fun hfree => ?_,
      fun htaken => ?_⟩
    · -- a later candidate would mean that the first one was taken
      obtain rfl : k = 0 := Nat.eq_zero_of_not_pos fun hpos => hfree (hbefore 0 hpos)
      rfl
    · cases k with
      | zero => exact absurd htaken hnew
      | succ k =>
        refine ⟨k + 2, by omega, ⟨⟨by omega, hnew⟩, fun n hn => ?_⟩, rfl⟩
        by_contra! hlt
        obtain ⟨j, rfl⟩ := Nat.exists_eq_add_of_le' hn.1
        exact hn.2 (hbefore (j + 1) (by omega))
  · rw [Artifact.declaredOf_code]
    exact Artifact.nodup_ownNames
  · rw [EventServiceModule.map_name_methods]
    refine (nodup_freshNames _ _).map fun m n h => ?_
    have hchars := congrArg String.toList h
    rw [String.toList_append, String.toList_append] at hchars
    exact String.toList_inj.1 (List.append_cancel_left hchars)

/-- A name that looks like a numbered one is numbered itself. -/
example : freshNames [] ["getUser", "get_user", "getUser2", "GetUser"] =
    ["GetUser", "GetUser2", "GetUser22", "GetUser3"] := by
  decide +kernel

end IpcWiring.Emit
