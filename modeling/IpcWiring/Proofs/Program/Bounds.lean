import Mathlib.Data.List.Perm.Basic
import Mathlib.Data.List.SplitBy
import IpcWiring.Proofs.Program.Runs

/-!
# Members with more steps

The number of steps cuts an expansion that goes on too long. A cut mostly leaves the type without
members. It is passed over at three places: the base of an interface is left out if it cannot be
expanded, an `export *` is left out if the name is not found behind it, and schemas count steps of
their own. Where nothing is passed over that more steps would follow (`Program.Settled`), the
members of a type are the same with more steps (`Program.members_eq_of_settled`).
-/

namespace IpcWiring

open Script

namespace Program

/-- On the way to the keys, every name is looked up past settled `export *` only. -/
def KeysSettled (p : Program) : Nat → TypePlace → Prop :=
  Throughout p.KeyCalls fun n place => ∀ name, KeyName place name →
    Throughout p.AsksName p.StarsSettled n (.inside place.file name)

/-- Every base that is left out here for want of members has none with more steps either, where
`schemas'` expands the types of schemas. -/
def BasesSettled (p : Program) (schemas schemas' : SchemaReader) (n : Nat) (place : TypePlace) :
    Prop :=
  ∀ {name args path i base}, p.DeclaredName place name args →
    p.resolve (n + 1) place.file name = some (.interface path i) → base ∈ i.bases →
    p.expandWith schemas n ⟨path, p.bodyScope place path args i.typeParams, base⟩ = none →
    ∀ k ≥ n, p.expandWith schemas' k ⟨path, p.bodyScope place path args i.typeParams, base⟩ = none

/-- The type of a schema that is met here has the same members with `schemas'`. -/
def SchemaSettled (p : Program) (schemas schemas' : SchemaReader) (place : TypePlace) : Prop :=
  ∀ {name args mode}, place.type.form = .reference name args →
    p.roleOf place.file place.scope name = .schema mode →
    schemas' place.file place.type.start args mode = schemas place.file place.type.start args mode

/-- On the way to the members of a type nothing is passed over that would be followed with more
steps: no base, no `export *` and nothing in a schema. -/
def Settled (p : Program) (schemas schemas' : SchemaReader) : Nat → TypePlace → Prop :=
  Throughout (p.Calls schemas) fun
    | 0, _ => True
    | n + 1, place =>
      (∀ name args, p.DeclaredName place name args →
        Throughout p.AsksName p.StarsSettled (n + 1) (.inside place.file name)) ∧
      (∀ key, p.ReadsKeys schemas n place key → p.KeysSettled n key) ∧
      p.BasesSettled schemas schemas' n place ∧ p.SchemaSettled schemas schemas' place

variable {p : Program} {schemas schemas' : SchemaReader} {n k : Nat} {place : TypePlace}

/-- Keys are the same with more steps. -/
theorem stringKeys?_eq_some_of_le {keys : List String} (h : p.KeysSettled n place)
    (hs : p.stringKeys? n place.file place.scope place.type = some keys) (hk : n ≤ k) :
    p.stringKeys? k place.file place.scope place.type = some keys := by
  induction n generalizing k place keys with
  | zero => cases hs
  | succ n ih =>
    obtain ⟨k, rfl⟩ : ∃ j, k = j + 1 := ⟨k - 1, by omega⟩
    have hk := Nat.le_of_succ_le_succ hk
    rw [stringKeys?] at hs ⊢
    cases hform : place.type.form with
    | literal value => rwa [hform] at hs
    | paren inner =>
      rw [hform] at hs
      exact ih (h.call (.paren hform)) hs hk
    | union options =>
      rw [hform] at hs
      obtain ⟨lists, hlists, rfl⟩ := Option.map_eq_some_iff.1 hs
      refine Option.map_eq_some_iff.2 ⟨lists, ?_, rfl⟩
      refine mapM_eq_some_of_called hlists fun before option after heq hbefore keys hkeys => ?_
      exact ih (h.call (.option (heq ▸ hform) hbefore)) hkeys hk
    | reference name args =>
      rw [hform] at hs
      cases args with
      | cons arg rest => cases hs
      | nil =>
        dsimp only at hs ⊢
        cases hb : boundTo place.scope name with
        | some b =>
          have hfound := hb
          rw [boundTo] at hfound
          rw [hfound] at hs ⊢
          exact ih (h.call (.parameter hform hb)) hs hk
        | none =>
          have hfound := hb
          rw [boundTo] at hfound
          rw [hfound] at hs ⊢
          dsimp only at hs ⊢
          cases hr : p.resolve (n + 1) place.file name with
          | none => rw [hr] at hs; cases hs
          | some s =>
            have hr' : p.resolve (k + 1) place.file name = some s :=
              resolve_eq_some_of_le (h.here name ⟨hform, hb⟩) hr (Nat.succ_le_succ hk)
            rw [hr] at hs
            rw [hr']
            cases s with
            | typeAlias path a =>
              dsimp only at hs ⊢
              split at hs
              · next hplain =>
                rw [if_pos hplain]
                exact ih (h.call (.body ⟨hform, hb⟩ hr hplain)) hs hk
              · cases hs
            | interface | opaqueType | external => cases hs
    | _ => rw [hform] at hs; cases hs

/-- What a utility type makes of members is the same with more steps for its keys. -/
theorem applyUtility_eq_some {utility : String} {members result : List MemberInfo}
    {keys? keys?' : Option (List String)}
    (hkeys : utility = "Pick" ∨ utility = "Omit" → ∀ keys, keys? = some keys → keys?' = some keys)
    (hs : applyUtility utility members keys? = some result) :
    applyUtility utility members keys?' = some result := by
  unfold applyUtility at hs ⊢
  split at hs
  · exact hs
  · exact hs
  · exact hs
  · obtain ⟨keys, hk, rfl⟩ := Option.map_eq_some_iff.1 hs
    rw [hkeys (.inl rfl) keys hk]
    rfl
  · obtain ⟨keys, hk, rfl⟩ := Option.map_eq_some_iff.1 hs
    rw [hkeys (.inr rfl) keys hk]
    rfl
  · cases hs

/-- A type that has members has the same ones with more steps, if nothing is passed over that these
would follow. -/
theorem expandWith_eq_some_of_le {members : List MemberInfo}
    (h : p.Settled schemas schemas' n place) (hs : p.expandWith schemas n place = some members)
    (hk : n ≤ k) : p.expandWith schemas' k place = some members := by
  induction n generalizing k place members with
  | zero => cases hs
  | succ n ih =>
    obtain ⟨k, rfl⟩ : ∃ j, k = j + 1 := ⟨k - 1, by omega⟩
    have hk := Nat.le_of_succ_le_succ hk
    obtain ⟨hnames, hkeys, hbases, hschema⟩ := h.here
    rw [expandWith] at hs ⊢
    cases hform : place.type.form with
    | object properties isOpaque => rwa [hform] at hs
    | paren inner =>
      rw [hform] at hs
      exact ih (h.call (.paren hform)) hs hk
    | intersection parts =>
      rw [hform] at hs
      obtain ⟨lists, hlists, hs⟩ := Option.bind_eq_some_iff.1 hs
      refine Option.bind_eq_some_iff.2 ⟨lists, ?_, hs⟩
      refine mapM_eq_some_of_called hlists fun before part after heq hbefore ms hms => ?_
      exact ih (h.call (.part (heq ▸ hform) hbefore)) hms hk
    | reference name args =>
      rw [hform] at hs
      dsimp only at hs ⊢
      cases hrole : p.roleOf place.file place.scope name with
      | parameter b =>
        rw [hrole] at hs
        have hb : boundTo place.scope name = some b := boundTo_of_roleOf hrole
        exact ih (h.call (.parameter hform hb)) hs hk
      | utility =>
        rw [hrole] at hs
        obtain ⟨target, htarget, hs⟩ := Option.bind_eq_some_iff.1 hs
        obtain ⟨ms, hms, hs⟩ := Option.bind_eq_some_iff.1 hs
        have hutility : p.UtilityAt place name args := ⟨hform, hrole⟩
        refine Option.bind_eq_some_iff.2 ⟨target, htarget, Option.bind_eq_some_iff.2 ⟨ms, ?_, ?_⟩⟩
        · exact ih (h.call (.target hutility htarget)) hms hk
        · refine applyUtility_eq_some (fun hpicks keys hread => ?_) hs
          obtain ⟨key, hkey, hread⟩ := Option.bind_eq_some_iff.1 hread
          refine Option.bind_eq_some_iff.2 ⟨key, hkey, ?_⟩
          have hreads : p.ReadsKeys schemas n place { place with type := key } :=
            .intro hutility hpicks htarget (by rw [hms]; rfl) hkey
          exact stringKeys?_eq_some_of_le (hkeys _ hreads) hread hk
      | schema mode =>
        rw [hrole] at hs
        exact (hschema hform hrole).trans hs
      | declared =>
        rw [hrole] at hs
        dsimp only at hs ⊢
        have hdeclared : p.DeclaredName place name args := ⟨hform, hrole⟩
        cases hr : p.resolve (n + 1) place.file name with
        | none => rw [hr] at hs; cases hs
        | some s =>
          have hr' : p.resolve (k + 1) place.file name = some s :=
            resolve_eq_some_of_le (hnames name args hdeclared) hr (Nat.succ_le_succ hk)
          rw [hr] at hs
          rw [hr']
          cases s with
          | typeAlias path a => exact ih (h.call (.body hdeclared hr)) hs hk
          | interface path i =>
            dsimp only at hs ⊢
            cases hopen : i.isOpaque with
            | true => rw [hopen] at hs; cases hs
            | false =>
              rw [hopen] at hs
              rw [← hs, if_neg Bool.false_ne_true, if_neg Bool.false_ne_true]
              have hsame : ∀ base ∈ i.bases,
                  p.expandWith schemas' k ⟨path, p.bodyScope place path args i.typeParams, base⟩ =
                    p.expandWith schemas n
                      ⟨path, p.bodyScope place path args i.typeParams, base⟩ := by
                intro base hbase
                cases hms : p.expandWith schemas n
                    ⟨path, p.bodyScope place path args i.typeParams, base⟩ with
                | none => exact hbases hdeclared hr hbase hms k hk
                | some ms => exact ih (h.call (.base hdeclared hr hopen hbase)) hms hk
              rw [List.filterMap_congr hsame]
          | opaqueType | external => cases hs
    | _ => rw [hform] at hs; cases hs

/-- **Members are the same with more steps unless something is passed over.** A type that has
members within `maxSteps` has the same ones, in the same order, with more steps, whatever those make
of schemas (`schemas'`), unless on the way the base of an interface, an `export *` or something in
a schema is passed over that more steps would follow. So a cut at any other place leaves the type
without members. -/
theorem members_eq_of_settled (p : Program) (file : Path) (t : TypeExpr) (members : List MemberInfo)
    (hs : p.members? file t = some members) (schemas' : SchemaReader)
    (h : p.Settled p.schemaMembers? schemas' maxSteps ⟨file, .empty, t⟩) :
    ∀ steps ≥ maxSteps, (p.expandWith schemas' steps ⟨file, .empty, t⟩).map MemberInfo.sortRuns =
      some members := by
  intro steps hsteps
  obtain ⟨found, hfound, rfl⟩ := Option.map_eq_some_iff.1 hs
  rw [expand_eq_expandWith] at hfound
  rw [expandWith_eq_some_of_le h hfound hsteps]
  rfl

/-! ## Ladders of interfaces -/

/-- Nothing is passed over on the way to the members of an interface if that is so for its bases and
each of them has members. -/
theorem Settled.of_interface {name : TypeName} {args : List TypeExpr} {path : Path}
    {i : InterfaceDecl} (h : p.DeclaredName place name args)
    (hname : Throughout p.AsksName p.StarsSettled (n + 1) (.inside place.file name))
    (hi : p.resolve (n + 1) place.file name = some (.interface path i))
    (hbases : ∀ base ∈ i.bases,
      let below : TypePlace := ⟨path, p.bodyScope place path args i.typeParams, base⟩
      (p.expandWith schemas n below).isSome = true ∧ p.Settled schemas schemas' n below) :
    p.Settled schemas schemas' (n + 1) place := by
  refine throughout_interface ⟨fun name' args' h' => ?_, fun key hkey => ?_, ?_, ?_⟩ h hi
    fun base hbase => (hbases base hbase).2
  · obtain ⟨rfl, rfl⟩ := reference_inj h.1 h'.1
    exact hname
  · exact (hkey.of_declared h).elim
  · intro name' args' path' i' base h' hi' hbase hnone
    obtain ⟨rfl, rfl⟩ := reference_inj h.1 h'.1
    obtain ⟨rfl, rfl⟩ := Symbol.interface.inj (Option.some.inj (hi.symm.trans hi'))
    have hsome := (hbases base hbase).1
    rw [hnone] at hsome
    cases hsome
  · intro name' args' mode h' hschema
    obtain ⟨rfl, rfl⟩ := reference_inj h.1 h'
    cases h.2.symm.trans hschema

/-- A reference to an interface by its name. -/
def namedType (name : String) : TypeExpr := ⟨.reference (.simple name) [], name, 0, [.simple name]⟩

/-- Interfaces that each extend the next one, with a property each. -/
def rungs : List String → List (String × InterfaceDecl)
  | [] => []
  | name :: below =>
    (name, ⟨name, [], [⟨name, false, .ofKeyword "string" 0, 0⟩],
      below.head?.toList.map namedType, false⟩) :: rungs below

/-- A file with interfaces that each extend the next one. -/
def ladder (names : List String) : Program where
  modules := [{ SourceModule.empty ⟨"/src/api.ts"⟩ with interfaces := ⟨rungs names⟩ }]
  unreadable := []

/-- The top of a ladder where it is expanded. -/
def ladderTop (name : String) : TypePlace := ⟨⟨"/src/api.ts"⟩, .empty, namedType name⟩

/-- The ladder of two interfaces has the members of both with any number of steps that is not less
than `maxSteps`. -/
theorem members_eq_of_settled_ladder :
    ∃ members, (ladder ["User", "Named"]).members? ⟨"/src/api.ts"⟩ (namedType "User") =
        some members ∧
      ∀ steps ≥ maxSteps, ((ladder ["User", "Named"]).expandWith
        (ladder ["User", "Named"]).schemaMembers? steps (ladderTop "User")).map
          MemberInfo.sortRuns = some members := by
  have hnamed : (ladder ["User", "Named"]).Settled (ladder ["User", "Named"]).schemaMembers?
      (ladder ["User", "Named"]).schemaMembers? 16 (ladderTop "Named") :=
    .of_interface ⟨rfl, rfl⟩ (throughout_declaredAt (.intro rfl rfl) trivial) rfl nofun
  have huser : (ladder ["User", "Named"]).Settled (ladder ["User", "Named"]).schemaMembers?
      (ladder ["User", "Named"]).schemaMembers? 17 (ladderTop "User") := by
    refine .of_interface ⟨rfl, rfl⟩ (throughout_declaredAt (.intro rfl rfl) trivial) rfl
      fun base hbase => ?_
    obtain rfl := List.mem_singleton.1 hbase
    exact ⟨rfl, hnamed⟩
  exact ⟨_, rfl, members_eq_of_settled _ _ _ _ rfl _ huser⟩

/-! ## What is passed over -/

open scoped List in
/-- Sorting runs of members keeps them all. -/
theorem sortRuns_perm (members : List MemberInfo) :
    MemberInfo.sortRuns members ~ members := by
  have h : MemberInfo.sortRuns members ~ (members.splitBy (·.origin == ·.origin)).flatMap id := by
    rw [MemberInfo.sortRuns]
    exact List.Perm.flatMap_left _ fun run _ => List.mergeSort_perm run _
  rwa [List.flatMap_id, List.flatten_splitBy] at h

/-- A type in parentheses. -/
def parenthesized (t : TypeExpr) : Nat → TypeExpr
  | 0 => t
  | n + 1 => ⟨.paren (parenthesized t n), "(" ++ (parenthesized t n).text ++ ")", 0, t.names⟩

/-- A file that imports a name from an index with two stars. The name is four steps away behind the
first star, and three behind the second one, where it is another interface. -/
def twoStars : Program where
  modules := [{ SourceModule.empty ⟨"/src/api.ts"⟩ with
      imports := ⟨[("Item", ⟨"./index", .named "Item"⟩)]⟩ },
    { SourceModule.empty ⟨"/src/index.ts"⟩ with reexports := [.all "./far", .all "./near"] },
    { SourceModule.empty ⟨"/src/far.ts"⟩ with reexports := [.named "Item" "Item" "./item"] },
    { SourceModule.empty ⟨"/src/item.ts"⟩ with
      exports := ⟨[("Item", "Item")]⟩
      interfaces := ⟨[("Item", ⟨"Item", [], [⟨"id", false, .ofKeyword "string" 0, 0⟩], [],
        false⟩)]⟩ },
    { SourceModule.empty ⟨"/src/near.ts"⟩ with
      exports := ⟨[("Item", "Item")]⟩
      interfaces := ⟨[("Item", ⟨"Item", [], [⟨"name", false, .ofKeyword "string" 0, 0⟩], [],
        false⟩)]⟩ }]
  unreadable := []

/-- More interfaces than there are steps. -/
def tallNames : List String :=
  ["A", "B", "C", "D", "E", "F", "G", "H", "I", "J", "K", "L", "M", "N", "O", "P", "Q", "R"]

/-- A cut may be passed over: of a ladder of 18 interfaces the last one is left out, and behind 13
pairs of parentheses a name is taken from the second `export *`. With one more step the last
interface is there, and the name is taken from the first one. -/
theorem members_cut :
    (((ladder tallNames).expand maxSteps ⟨"/src/api.ts"⟩ .empty (namedType "A")).map
        (·.map (·.name)) = some tallNames.dropLast ∧
      ((ladder tallNames).expand (maxSteps + 1) ⟨"/src/api.ts"⟩ .empty (namedType "A")).map
        (·.map (·.name)) = some tallNames) ∧
    ((twoStars.expand maxSteps ⟨"/src/api.ts"⟩ .empty (parenthesized (namedType "Item") 13)).map
        (·.map (·.name)) = some ["name"] ∧
      (twoStars.expand (maxSteps + 1) ⟨"/src/api.ts"⟩ .empty
        (parenthesized (namedType "Item") 13)).map (·.map (·.name)) = some ["id"]) ∧
    ¬ ∀ (p : Program) (file : Path) (t : TypeExpr) (members : List MemberInfo),
      p.members? file t = some members → ∀ steps ≥ maxSteps,
        (p.expand steps file .empty t).map MemberInfo.sortRuns = some members := by
  have hcut : ((ladder tallNames).expand maxSteps ⟨"/src/api.ts"⟩ .empty (namedType "A")).map
      (·.map (·.name)) = some tallNames.dropLast := rfl
  have hmore : ((ladder tallNames).expand (maxSteps + 1) ⟨"/src/api.ts"⟩ .empty
      (namedType "A")).map (·.map (·.name)) = some tallNames := rfl
  refine ⟨⟨hcut, hmore⟩, ⟨rfl, rfl⟩, fun hsame => ?_⟩
  obtain ⟨few, hfew, hfewNames⟩ := Option.map_eq_some_iff.1 hcut
  obtain ⟨all, hall, hallNames⟩ := Option.map_eq_some_iff.1 hmore
  have h := hsame _ _ _ _ (congrArg (Option.map MemberInfo.sortRuns) hfew) (maxSteps + 1)
    (Nat.le_succ maxSteps)
  rw [hall] at h
  have hlength : all.length = few.length := by
    rw [← (sortRuns_perm all).length_eq, ← (sortRuns_perm few).length_eq, Option.some.inj h]
  have hfewLength := congrArg List.length hfewNames
  have hallLength := congrArg List.length hallNames
  rw [List.length_map] at hfewLength hallLength
  rw [hfewLength, hallLength] at hlength
  exact absurd hlength (by decide)

end Program

end IpcWiring
