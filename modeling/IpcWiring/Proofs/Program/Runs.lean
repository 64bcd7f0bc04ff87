import IpcWiring.Program.Members
import IpcWiring.Proofs.Program.Chains

/-!
# Runs within a number of steps

Looking up a name, reading the keys of a utility type and expanding a type are recursions that take
a number of steps and give up when none are left. Here are the calls that each of them makes:
`Program.AsksName` for names, `Program.KeyCalls` for keys and `Program.Calls` for types. A property
of calls may hold throughout a run (`Throughout`). A name that is looked up with steps left
throughout (`Program.NameWithin`) leads to the same with more of them (`Program.follow_eq_of_le`);
so it does if it leads anywhere and no `export *` is passed over that more steps would follow
(`Program.follow_eq_some_of_le`).
-/

namespace IpcWiring

open Script

/-! ## Lists of calls -/

section

variable {α β : Type} {f g : α → Option β} {as : List α}

/-- Calls that are made one after the other, as long as each gives something, give the same if each
that is made does. -/
theorem mapM_congr_of_called
    (h : ∀ before a after, as = before ++ a :: after → (∀ b ∈ before, (f b).isSome = true) →
      f a = g a) : as.mapM f = as.mapM g := by
  induction as with
  | nil => rw [List.mapM_nil, List.mapM_nil]
  | cons a as ih =>
    rw [List.mapM_cons, List.mapM_cons, ← h [] a as rfl nofun]
    refine Option.bind_congr fun b hb => ?_
    rw [ih fun before a' after heq hbefore => h (a :: before) a' after (by rw [heq]; rfl)
      (List.forall_mem_cons.2 ⟨by rw [hb]; rfl, hbefore⟩)]

/-- Calls that are made one after the other all give something if the last does. -/
theorem isSome_of_mapM {bs : List β} (h : as.mapM f = some bs) : ∀ a ∈ as, (f a).isSome = true := by
  induction as generalizing bs with
  | nil => nofun
  | cons a as ih =>
    rw [List.mapM_cons] at h
    obtain ⟨b, hb, h⟩ := Option.bind_eq_some_iff.1 h
    obtain ⟨rest, hrest, -⟩ := Option.bind_eq_some_iff.1 h
    exact List.forall_mem_cons.2 ⟨by rw [hb]; rfl, ih hrest⟩

/-- Calls that are made one after the other and all give something give it with other calls too, if
each does. -/
theorem mapM_eq_some_of_called {bs : List β} (hs : as.mapM f = some bs)
    (h : ∀ before a after, as = before ++ a :: after → (∀ b ∈ before, (f b).isSome = true) →
      ∀ b, f a = some b → g a = some b) : as.mapM g = some bs := by
  rw [← hs]
  refine (mapM_congr_of_called fun before a after heq hbefore => ?_).symm
  obtain ⟨b, hb⟩ := Option.isSome_iff_exists.1 (isSome_of_mapM hs a (heq ▸ by simp))
  rw [hb, h before a after heq hbefore b hb]

end

/-! ## Calls -/

/-- What holds of a call with a number of steps, and of all calls below it, each with a step
less. -/
def Throughout {α : Type} (calls : Nat → α → α → Prop) (good : Nat → α → Prop) : Nat → α → Prop
  | 0, a => good 0 a
  | n + 1, a => good (n + 1) a ∧ ∀ b, calls n a b → Throughout calls good n b

namespace Throughout

variable {α : Type} {calls : Nat → α → α → Prop} {good : Nat → α → Prop} {n : Nat} {a b : α}

/-- It holds of the call itself. -/
theorem here (h : Throughout calls good n a) : good n a := by
  cases n with
  | zero => exact h
  | succ n => exact h.1

/-- It holds throughout a call that is made. -/
theorem call (h : Throughout calls good (n + 1) a) (hb : calls n a b) :
    Throughout calls good n b := h.2 b hb

end Throughout

/-! ## Names -/

/-- A re-export is asked for a name: those before it neither re-export the name nor lead to it. -/
def Routes.Reaches {α : Type} (w : Routes α) (name : String) (rs : List ReExport) (r : ReExport) :
    Prop :=
  ∃ before after, rs = before ++ r :: after ∧
    ∀ b ∈ before, w.along name b = none ∧ (true && b.isNamed name) = false

/-- What the re-exports give in order depends on those that are asked. -/
theorem Routes.inOrder_congr {α : Type} {w w' : Routes α} {name : String} {rs : List ReExport}
    (h : ∀ r, w.Reaches name rs r → w.along name r = w'.along name r) :
    w.inOrder true name rs = w'.inOrder true name rs := by
  induction rs with
  | nil => rfl
  | cons r rest ih =>
    have hr := h r ⟨[], rest, rfl, nofun⟩
    rw [inOrder, inOrder, ← hr]
    cases halong : w.along name r with
    | some a => rfl
    | none =>
      cases hnamed : (true && r.isNamed name) with
      | true => rfl
      | false =>
        refine ih fun r' hr' => ?_
        obtain ⟨before, after, heq, hbefore⟩ := hr'
        refine h r' ⟨r :: before, after, ?_, ?_⟩
        · rw [heq, List.cons_append]
        · exact List.forall_mem_cons.2 ⟨⟨halong, hnamed⟩, hbefore⟩

/-- A re-export before one that is asked is asked. -/
theorem Routes.reaches_of_mem {α : Type} {w : Routes α} {name : String}
    {rs before after : List ReExport} {r b : ReExport} (heq : rs = before ++ r :: after)
    (hbefore : ∀ b ∈ before, w.along name b = none ∧ (true && b.isNamed name) = false)
    (hb : b ∈ before) : w.Reaches name rs b := by
  obtain ⟨first, second, rfl⟩ := List.append_of_mem hb
  refine ⟨first, second ++ r :: after, by rw [heq, List.append_assoc, List.cons_append], ?_⟩
  exact fun c hc => hbefore c (List.mem_append_left _ hc)

namespace Program

/-- The calls that the look-up of a name makes, with the steps that these have. -/
inductive AsksName (p : Program) (n : Nat) : NamePlace → NamePlace → Prop
  | imported {file target : Path} {m : SourceModule} {name known : String} {b : ImportBinding}
    (hm : p.module? file = some m) (hclear : Lookup.types.declared m name = none)
    (hb : m.imports.find? name = some b) (hknown : importedName? b.kind = some known)
    (ht : p.targetOf file b.specifier = some target) :
    AsksName p n (.inside file (.simple name)) (.exported target known)
  | member {file target : Path} {m : SourceModule} {name member : String} {b : ImportBinding}
    (hm : p.module? file = some m) (hb : m.imports.find? name = some b)
    (hwhole : b.kind = .wholeModule) (ht : p.targetOf file b.specifier = some target) :
    AsksName p n (.inside file ⟨name, [member]⟩) (.exported target member)
  | ofLocal {file : Path} {m : SourceModule} {name inner : String} (hm : p.module? file = some m)
    (he : m.exports.find? name = some inner) :
    AsksName p n (.exported file name) (.inside file (.simple inner))
  | named {file target : Path} {m : SourceModule} {name known specifier : String}
    (hm : p.module? file = some m) (hclear : m.exports.find? name = none)
    (hr : (Lookup.types.routes p (p.resolveExport n) file name).Reaches name m.reexports
      (.named name known specifier))
    (ht : p.targetOf file specifier = some target) :
    AsksName p n (.exported file name) (.exported target known)
  | star {file target : Path} {m : SourceModule} {name specifier : String}
    (hm : p.module? file = some m) (hclear : m.exports.find? name = none)
    (hr : (Lookup.types.routes p (p.resolveExport n) file name).Reaches name m.reexports
      (.all specifier))
    (ht : p.targetOf file specifier = some target) :
    AsksName p n (.exported file name) (.exported target name)

/-- The look-up of a name never runs out of steps. -/
def NameWithin (p : Program) : Nat → NamePlace → Prop :=
  Throughout p.AsksName fun n _ => n ≠ 0

/-- Every `export *` that is asked here and does not lead to the name does not lead to it with more
steps either. -/
def StarsSettled (p : Program) : Nat → NamePlace → Prop
  | 0, _ | _, .inside .. => True
  | n + 1, .exported file name => ∀ {m specifier target}, p.module? file = some m →
      m.exports.find? name = none →
      (Lookup.types.routes p (p.resolveExport n) file name).Reaches name m.reexports
        (.all specifier) →
      p.targetOf file specifier = some target → p.resolveExport n target name = none →
      ∀ k ≥ n, p.resolveExport k target name = none

section

variable {p : Program} {file : Path} {m : SourceModule} {name specifier : String} {n k : Nat}
  {s : Symbol} {place : NamePlace}

/-- A name of a module leads to the same if it does in the file of the module. -/
theorem viaSpecifier_congr {x y : Path → String → Option Symbol}
    (h : ∀ target, p.targetOf file specifier = some target → x target name = y target name) :
    p.viaSpecifier x file specifier name = p.viaSpecifier y file specifier name := by
  rw [viaSpecifier, viaSpecifier]
  cases ht : p.targetOf file specifier with
  | none => rfl
  | some target => exact h target ht

/-- A re-export along which a name leads somewhere leads there with other look-ups too, if these
lead there from the files that it asks. -/
theorem along_eq {x y : Path → String → Option Symbol} {r : ReExport}
    (hnamed : ∀ {known specifier target}, r = .named name known specifier →
      p.targetOf file specifier = some target → x target known = y target known)
    (hstar : ∀ {specifier target}, r = .all specifier → p.targetOf file specifier = some target →
      x target name = y target name) :
    (Lookup.types.routes p x file name).along name r =
      (Lookup.types.routes p y file name).along name r := by
  cases r with
  | named exported known specifier =>
    rw [Routes.along, Routes.along]
    split
    · next hsame =>
      obtain rfl := beq_iff_eq.1 hsame
      exact viaSpecifier_congr fun target ht => hnamed rfl ht
    · rfl
  | wholeModule => rfl
  | all specifier => exact Option.bind_congr fun target ht => hstar rfl ht

/-- A name leads to the same inside a file with two numbers of steps, if what is asked next does. -/
theorem resolveLocal_congr (h : ∀ next, p.AsksName n (.inside file (.simple name)) next →
      p.follow k next = p.follow n next) :
    p.resolveLocal (k + 1) file name = p.resolveLocal (n + 1) file name := by
  cases hm : p.module? file with
  | none => rw [resolveLocal, resolveLocal, hm]; rfl
  | some m =>
    rw [resolveLocal_succ hm, resolveLocal_succ hm]
    cases hclear : Lookup.types.declared m name with
    | some s => rfl
    | none =>
      exact Option.bind_congr fun b hb => Option.bind_congr fun known hknown =>
        viaSpecifier_congr fun target ht => h _ (.imported hm hclear hb hknown ht)

/-- A member of an imported module leads to the same, if what is asked next does. -/
theorem resolve_member_congr {member : String}
    (h : ∀ next, p.AsksName n (.inside file ⟨name, [member]⟩) next →
      p.follow k next = p.follow n next) :
    p.resolve (k + 1) file ⟨name, [member]⟩ = p.resolve (n + 1) file ⟨name, [member]⟩ := by
  rw [resolve, resolve]
  refine Option.bind_congr fun m hm => Option.bind_congr fun b hb => ?_
  simp only [bind]
  split
  · rfl
  · next hwhole =>
    exact viaSpecifier_congr fun target ht =>
      h _ (.member hm hb (by simpa using hwhole) ht)

/-- A name that is looked up within its steps leads to the same with more of them. -/
theorem follow_eq_of_le (h : p.NameWithin n place) (hk : n ≤ k) :
    p.follow k place = p.follow n place := by
  induction n generalizing k place with
  | zero => exact absurd rfl h.here
  | succ n ih =>
    obtain ⟨k, rfl⟩ : ∃ j, k = j + 1 := ⟨k - 1, by omega⟩
    have hnext : ∀ next, p.AsksName n place next → p.follow k next = p.follow n next :=
      fun next hask => ih (h.call hask) (Nat.le_of_succ_le_succ hk)
    match place with
    | .inside file ⟨name, []⟩ => exact resolveLocal_congr hnext
    | .inside file ⟨name, [member]⟩ => exact resolve_member_congr hnext
    | .inside file ⟨name, _ :: _ :: _⟩ => rfl
    | .exported file name =>
      change p.resolveExport (k + 1) file name = p.resolveExport (n + 1) file name
      cases hm : p.module? file with
      | none => rw [resolveExport, resolveExport, hm]; rfl
      | some m =>
        rw [resolveExport_succ hm, resolveExport_succ hm]
        cases hclear : m.exports.find? name with
        | some inner => exact hnext _ (.ofLocal hm hclear)
        | none =>
          refine (Routes.inOrder_congr fun r hr => along_eq ?_ ?_).symm
          · rintro known specifier target rfl ht
            exact (hnext _ (.named hm hclear hr ht)).symm
          · rintro specifier target rfl ht
            exact (hnext _ (.star hm hclear hr ht)).symm

/-- A name inside a file that is looked up within its steps leads to the same with more of them. -/
theorem resolve_eq_of_le {name : TypeName} (h : p.NameWithin n (.inside file name)) (hk : n ≤ k) :
    p.resolve k file name = p.resolve n file name := by
  have hfollow := follow_eq_of_le h hk
  exact hfollow

/-- A name of a module leads somewhere with other look-ups too, if it does in the file of the
module. -/
theorem viaSpecifier_eq_some {x y : Path → String → Option Symbol}
    (h : ∀ target, p.targetOf file specifier = some target → x target name = some s →
      y target name = some s)
    (hs : p.viaSpecifier x file specifier name = some s) :
    p.viaSpecifier y file specifier name = some s := by
  rw [viaSpecifier] at hs ⊢
  cases ht : p.targetOf file specifier with
  | none => rwa [ht] at hs
  | some target =>
    rw [ht] at hs
    exact h target ht hs

/-- A name that leads anywhere inside a file leads there with other steps, if what is asked next
does. -/
theorem resolveLocal_eq_some (hnext : ∀ next, p.AsksName n (.inside file (.simple name)) next →
      p.follow n next = some s → p.follow k next = some s)
    (hs : p.resolveLocal (n + 1) file name = some s) :
    p.resolveLocal (k + 1) file name = some s := by
  cases hm : p.module? file with
  | none => rw [resolveLocal, hm] at hs; cases hs
  | some m =>
    rw [resolveLocal_succ hm] at hs ⊢
    cases hclear : Lookup.types.declared m name with
    | some s' => rwa [hclear] at hs
    | none =>
      rw [hclear] at hs
      obtain ⟨b, hb, hs⟩ := Option.bind_eq_some_iff.1 hs
      obtain ⟨known, hknown, hs⟩ := Option.bind_eq_some_iff.1 hs
      refine Option.bind_eq_some_iff.2 ⟨b, hb, Option.bind_eq_some_iff.2 ⟨known, hknown, ?_⟩⟩
      exact viaSpecifier_eq_some
        (fun target ht => hnext _ (.imported hm hclear hb hknown ht)) hs

/-- A member of an imported module that leads anywhere leads there with other steps, if its module
exports it with these. -/
theorem resolve_member_eq_some {member : String}
    (hnext : ∀ {m b target}, p.module? file = some m → m.imports.find? name = some b →
      b.kind = .wholeModule → p.targetOf file b.specifier = some target →
      p.resolveExport (n - 1) target member = some s →
      p.resolveExport (k - 1) target member = some s)
    (hs : p.resolve n file ⟨name, [member]⟩ = some s) :
    p.resolve k file ⟨name, [member]⟩ = some s := by
  obtain ⟨m, hm, hs⟩ := Option.bind_eq_some_iff.1 hs
  obtain ⟨b, hb, hs⟩ := Option.bind_eq_some_iff.1 hs
  refine Option.bind_eq_some_iff.2 ⟨m, hm, Option.bind_eq_some_iff.2 ⟨b, hb, ?_⟩⟩
  simp only [bind] at hs ⊢
  split at hs
  · cases hs
  · next hwhole =>
    rw [if_neg hwhole]
    exact viaSpecifier_eq_some
      (fun target ht => hnext hm hb (by simpa using hwhole) ht) hs

/-- A name that leads anywhere among the exports of a file leads there with more steps, if no
`export *` is passed over that these would follow, and what is asked next leads there. -/
theorem resolveExport_eq_some (hstars : p.StarsSettled (n + 1) (.exported file name)) (hk : n ≤ k)
    (hnext : ∀ next, p.AsksName n (.exported file name) next → p.follow n next = some s →
      p.follow k next = some s)
    (hs : p.resolveExport (n + 1) file name = some s) :
    p.resolveExport (k + 1) file name = some s := by
  cases hm : p.module? file with
  | none => rw [resolveExport, hm] at hs; cases hs
  | some m =>
    rw [resolveExport_succ hm] at hs ⊢
    cases hclear : m.exports.find? name with
    | some inner =>
      rw [hclear] at hs
      exact hnext _ (.ofLocal hm hclear) hs
    | none =>
      rw [hclear] at hs
      obtain ⟨before, r, after, heq, hbefore, hr⟩ := (Routes.inOrder_eq_some_iff _).1 hs
      refine (Routes.inOrder_eq_some_iff _).2 ⟨before, r, after, heq, fun b hb => ?_, ?_⟩
      · obtain ⟨hnone, hother⟩ := hbefore b hb
        refine ⟨?_, hother⟩
        rw [← hnone]
        refine (along_eq ?_ ?_).symm
        · rintro known specifier target rfl -
          simp [ReExport.isNamed] at hother
        · rintro specifier target rfl ht
          have hpassed : p.resolveExport n target name = none := by
            simpa [Routes.along, Lookup.routes, ht] using hnone
          rw [hpassed, hstars hm hclear (Routes.reaches_of_mem heq hbefore hb) ht hpassed k hk]
      · have hreach : (Lookup.types.routes p (p.resolveExport n) file name).Reaches name
            m.reexports r := ⟨before, after, heq, hbefore⟩
        cases r with
        | named exported known specifier =>
          rw [Routes.along] at hr ⊢
          split at hr
          · next hsame =>
            obtain rfl := beq_iff_eq.1 hsame
            rw [if_pos hsame]
            exact viaSpecifier_eq_some
              (fun target ht => hnext _ (.named hm hclear hreach ht)) hr
          · cases hr
        | wholeModule => cases hr
        | all specifier =>
          obtain ⟨target, ht, hr⟩ := Option.bind_eq_some_iff.1 hr
          exact Option.bind_eq_some_iff.2 ⟨target, ht, hnext _ (.star hm hclear hreach ht) hr⟩

/-- A name that leads anywhere leads there with more steps, unless an `export *` is passed over that
more steps would follow. -/
theorem follow_eq_some_of_le (h : Throughout p.AsksName p.StarsSettled n place)
    (hs : p.follow n place = some s) (hk : n ≤ k) : p.follow k place = some s := by
  induction n generalizing k place with
  | zero =>
    match place with
    | .inside file ⟨name, []⟩ | .exported file name | .inside file ⟨name, _ :: _ :: _⟩ => cases hs
    | .inside file ⟨name, [member]⟩ =>
      exact resolve_member_eq_some (fun _ _ _ _ hnone => by cases hnone) hs
  | succ n ih =>
    obtain ⟨k, rfl⟩ : ∃ j, k = j + 1 := ⟨k - 1, by omega⟩
    have hk := Nat.le_of_succ_le_succ hk
    have hnext : ∀ next, p.AsksName n place next → p.follow n next = some s →
      p.follow k next = some s := fun next hask hs => ih (h.call hask) hs hk
    match place with
    | .inside file ⟨name, []⟩ => exact resolveLocal_eq_some hnext hs
    | .inside file ⟨name, [member]⟩ =>
      exact resolve_member_eq_some (n := n + 1)
        (fun hm hb hwhole ht => hnext _ (.member hm hb hwhole ht)) hs
    | .inside file ⟨name, _ :: _ :: _⟩ => cases hs
    | .exported file name => exact resolveExport_eq_some h.here hk hnext hs

end

/-- A name that leads anywhere inside a file leads there with more steps, unless an `export *` is
passed over that more steps would follow. -/
theorem resolve_eq_some_of_le {p : Program} {file : Path} {name : TypeName} {n k : Nat} {s : Symbol}
    (h : Throughout p.AsksName p.StarsSettled n (.inside file name))
    (hs : p.resolve n file name = some s) (hk : n ≤ k) : p.resolve k file name = some s := by
  have hfollow := follow_eq_some_of_le h hs hk
  exact hfollow

/-- A name that its file declares asks for nothing else. -/
theorem throughout_declaredAt {p : Program} {good : Nat → NamePlace → Prop} {n : Nat}
    {place : NamePlace} {s : Symbol} (hs : p.DeclaresAt s place) (hgood : good (n + 1) place) :
    Throughout p.AsksName good (n + 1) place := by
  refine ⟨hgood, fun next hnext => ?_⟩
  obtain ⟨hm, hdeclared⟩ := hs
  cases hnext with
  | imported hm' hclear =>
    obtain rfl := Option.some.inj (hm.symm.trans hm')
    rw [hdeclared] at hclear
    cases hclear

end Program

/-! ## Types -/

/-- A type where it is expanded: in its file, and in the scope of type parameters there. -/
structure TypePlace where
  file : Path
  scope : Scope
  type : TypeExpr

/-- What a type name is taken for where it stands. -/
inductive NameRole where
  /-- A type parameter that is bound. -/
  | parameter (b : Binding)
  | utility
  /-- A helper of the schema library. -/
  | schema (mode : SchemaMode)
  /-- A declaration, if it is one at all. -/
  | declared

/-- How the types of schemas are expanded: the arguments of a helper in a file, where the type
starts. -/
abbrev SchemaReader := Path → Nat → List TypeExpr → SchemaMode → Option (List MemberInfo)

namespace Program

/-- What a name is bound to in a scope, if it can be a type parameter. -/
def boundTo (scope : Scope) (name : TypeName) : Option Binding :=
  if name.isSimple then scope.find? name.head else none

/-- What a type name is taken for in a file and scope. -/
def roleOf (p : Program) (file : Path) (scope : Scope) (name : TypeName) : NameRole :=
  match boundTo scope name with
  | some b => .parameter b
  | none =>
    if name.isSimple && utilityTypes.contains name.head && !p.shadows file name.head then .utility
    else match p.schemaModeOf? file name with
      | some mode => .schema mode
      | none => .declared

/-- A name is taken for a type parameter just if it is bound. -/
theorem boundTo_of_roleOf {p : Program} {file : Path} {scope : Scope} {name : TypeName}
    {b : Binding} (h : p.roleOf file scope name = .parameter b) : boundTo scope name = some b := by
  rw [roleOf] at h
  cases hb : boundTo scope name with
  | some b' =>
    rw [hb] at h
    cases h
    rfl
  | none =>
    rw [hb] at h
    dsimp only at h
    split at h
    · cases h
    · split at h <;> cases h

/-- The scope of a declaration's body for a reference to it. -/
def bodyScope (p : Program) (place : TypePlace) (path : Path) (args : List TypeExpr)
    (params : List TypeParam) : Scope :=
  p.bindParams place.file place.scope path .empty args params

/-- `Program.expand`, where `schemas` expands the types of schemas. -/
def expandWith (p : Program) (schemas : SchemaReader) : Nat → TypePlace → Option (List MemberInfo)
  | 0, _ => none
  | n + 1, place =>
    match place.type.form with
    | .object members isOpaque =>
      if isOpaque then none else some (members.map (p.memberIn place.file place.scope))
    | .paren inner => expandWith p schemas n { place with type := inner }
    | .intersection parts => do
      let lists ← parts.mapM fun part => expandWith p schemas n { place with type := part }
      return lists.foldl MemberInfo.addMissing []
    | .reference name args =>
      match p.roleOf place.file place.scope name with
      | .parameter b => expandWith p schemas n ⟨b.file, b.scope, b.type⟩
      | .utility => do
        let target ← args.head?
        let members ← expandWith p schemas n { place with type := target }
        applyUtility name.head members ((args[1]?).bind (p.stringKeys? n place.file place.scope))
      | .schema mode => schemas place.file place.type.start args mode
      | .declared =>
        match p.resolve (n + 1) place.file name with
        | some (.interface path i) =>
          if i.isOpaque then none
          else
            let inner := p.bodyScope place path args i.typeParams
            let bases := i.bases.filterMap fun base => expandWith p schemas n ⟨path, inner, base⟩
            some (bases.foldl MemberInfo.addMissing (i.members.map (p.memberIn path inner)))
        | some (.typeAlias path a) =>
          expandWith p schemas n ⟨path, p.bodyScope place path args a.typeParams, a.type⟩
        | _ => none
    | _ => none

/-- The members of a type are those that it has where schemas are expanded as the program does. -/
theorem expand_eq_expandWith (p : Program) (n : Nat) (file : Path) (scope : Scope) (t : TypeExpr) :
    p.expand n file scope t = p.expandWith p.schemaMembers? n ⟨file, scope, t⟩ := by
  induction n generalizing file scope t with
  | zero => rfl
  | succ n ih =>
    rw [expand, expandWith]
    have ih' : ∀ file scope, p.expand n file scope =
        fun t => p.expandWith p.schemaMembers? n ⟨file, scope, t⟩ := fun file scope =>
      funext fun t => ih file scope t
    dsimp only
    cases t.form with
    | reference name args =>
      dsimp only
      rw [roleOf, boundTo]
      cases (if name.isSimple then scope.find? name.head else none) with
      | some b => exact ih _ _ _
      | none =>
        dsimp only
        simp only [ih']
        split
        · rfl
        · cases p.schemaModeOf? file name <;> rfl
    | paren inner => exact ih _ _ _
    | intersection parts => simp only [ih']
    | _ => rfl

/-! ## Calls for keys and types -/

/-- A name that the place of a key looks up. -/
def KeyName (place : TypePlace) (name : TypeName) : Prop :=
  place.type.form = .reference name [] ∧ boundTo place.scope name = none

/-- The calls that reading keys makes, with the steps that these have; an option of a union is read
only if those before it have keys. -/
inductive KeyCalls (p : Program) (n : Nat) (place : TypePlace) : TypePlace → Prop
  | paren {inner : TypeExpr} (h : place.type.form = .paren inner) :
    KeyCalls p n place { place with type := inner }
  | option {before after : List TypeExpr} {option : TypeExpr}
    (h : place.type.form = .union (before ++ option :: after))
    (hbefore : ∀ t ∈ before, (p.stringKeys? n place.file place.scope t).isSome = true) :
    KeyCalls p n place { place with type := option }
  | parameter {name : TypeName} {b : Binding} (h : place.type.form = .reference name [])
    (hb : boundTo place.scope name = some b) : KeyCalls p n place ⟨b.file, b.scope, b.type⟩
  | body {name : TypeName} {path : Path} {a : AliasDecl} (h : KeyName place name)
    (ha : p.resolve (n + 1) place.file name = some (.typeAlias path a))
    (hplain : a.typeParams.isEmpty = true) : KeyCalls p n place ⟨path, .empty, a.type⟩

/-- A declared name that the place of a type looks up, with the arguments that it is given. -/
def DeclaredName (p : Program) (place : TypePlace) (name : TypeName) (args : List TypeExpr) :
    Prop :=
  place.type.form = .reference name args ∧ p.roleOf place.file place.scope name = .declared

/-- A utility type at a place, with its arguments. -/
def UtilityAt (p : Program) (place : TypePlace) (name : TypeName) (args : List TypeExpr) : Prop :=
  place.type.form = .reference name args ∧ p.roleOf place.file place.scope name = .utility

/-- The calls that expanding a type makes, with the steps that these have; a part of an intersection
is expanded only if those before it have members. -/
inductive Calls (p : Program) (schemas : SchemaReader) (n : Nat) (place : TypePlace) :
    TypePlace → Prop
  | paren {inner : TypeExpr} (h : place.type.form = .paren inner) :
    Calls p schemas n place { place with type := inner }
  | part {before after : List TypeExpr} {part : TypeExpr}
    (h : place.type.form = .intersection (before ++ part :: after))
    (hbefore : ∀ t ∈ before, (p.expandWith schemas n { place with type := t }).isSome = true) :
    Calls p schemas n place { place with type := part }
  | parameter {name : TypeName} {args : List TypeExpr} {b : Binding}
    (h : place.type.form = .reference name args) (hb : boundTo place.scope name = some b) :
    Calls p schemas n place ⟨b.file, b.scope, b.type⟩
  | target {name : TypeName} {args : List TypeExpr} {target : TypeExpr}
    (h : p.UtilityAt place name args) (htarget : args.head? = some target) :
    Calls p schemas n place { place with type := target }
  | base {name : TypeName} {args : List TypeExpr} {path : Path} {i : InterfaceDecl}
    {base : TypeExpr} (h : p.DeclaredName place name args)
    (hi : p.resolve (n + 1) place.file name = some (.interface path i))
    (hopen : i.isOpaque = false) (hbase : base ∈ i.bases) :
    Calls p schemas n place ⟨path, p.bodyScope place path args i.typeParams, base⟩
  | body {name : TypeName} {args : List TypeExpr} {path : Path} {a : AliasDecl}
    (h : p.DeclaredName place name args)
    (ha : p.resolve (n + 1) place.file name = some (.typeAlias path a)) :
    Calls p schemas n place ⟨path, p.bodyScope place path args a.typeParams, a.type⟩

/-- The keys that a utility type reads, once its first argument has members. -/
inductive ReadsKeys (p : Program) (schemas : SchemaReader) (n : Nat) (place : TypePlace) :
    TypePlace → Prop
  | intro {name : TypeName} {args : List TypeExpr} {target key : TypeExpr}
    (h : p.UtilityAt place name args) (hpicks : name.head = "Pick" ∨ name.head = "Omit")
    (htarget : args.head? = some target)
    (hmembers : (p.expandWith schemas n { place with type := target }).isSome = true)
    (hkey : args[1]? = some key) : ReadsKeys p schemas n place { place with type := key }

/-! ## What each kind of type calls -/

section

variable {p : Program} {schemas : SchemaReader} {n : Nat} {place next : TypePlace}
  {name : TypeName} {args : List TypeExpr} {path : Path}

/-- The form of a type is a reference to one name. -/
theorem reference_inj {name' : TypeName} {args' : List TypeExpr}
    (h : place.type.form = .reference name args) (h' : place.type.form = .reference name' args') :
    name = name' ∧ args = args' := TypeForm.reference.inj (h.symm.trans h')

/-- A parameter that is bound calls what it is bound to. -/
theorem Calls.of_parameter {b : Binding} (h : place.type.form = .reference name args)
    (hb : boundTo place.scope name = some b) (hcall : p.Calls schemas n place next) :
    next = ⟨b.file, b.scope, b.type⟩ := by
  have hrole : p.roleOf place.file place.scope name = .parameter b := by rw [roleOf, hb]
  cases hcall with
  | paren h' | part h' => cases h.symm.trans h'
  | parameter h' hb' =>
    obtain ⟨rfl, rfl⟩ := reference_inj h h'
    rw [Option.some.inj (hb.symm.trans hb')]
  | target h' | base h' | body h' =>
    obtain ⟨rfl, rfl⟩ := reference_inj h h'.1
    cases hrole.symm.trans h'.2

/-- A utility type calls its first argument. -/
theorem Calls.of_utility (h : p.UtilityAt place name args) (hcall : p.Calls schemas n place next) :
    ∃ target, args.head? = some target ∧ next = { place with type := target } := by
  cases hcall with
  | paren h' | part h' => cases h.1.symm.trans h'
  | parameter h' hb' =>
    obtain ⟨rfl, rfl⟩ := reference_inj h.1 h'
    have hrole := h.2
    rw [roleOf, hb'] at hrole
    cases hrole
  | target h' htarget =>
    obtain ⟨rfl, rfl⟩ := reference_inj h.1 h'.1
    exact ⟨_, htarget, rfl⟩
  | base h' | body h' =>
    obtain ⟨rfl, rfl⟩ := reference_inj h.1 h'.1
    cases h.2.symm.trans h'.2

/-- A declared name calls the bases of its interface or the body of its alias. -/
theorem Calls.of_declared (h : p.DeclaredName place name args)
    (hcall : p.Calls schemas n place next) :
    (∃ path i base, p.resolve (n + 1) place.file name = some (.interface path i) ∧
      base ∈ i.bases ∧ next = ⟨path, p.bodyScope place path args i.typeParams, base⟩) ∨
    ∃ path a, p.resolve (n + 1) place.file name = some (.typeAlias path a) ∧
      next = ⟨path, p.bodyScope place path args a.typeParams, a.type⟩ := by
  cases hcall with
  | paren h' | part h' => cases h.1.symm.trans h'
  | parameter h' hb' =>
    obtain ⟨rfl, rfl⟩ := reference_inj h.1 h'
    have hrole := h.2
    rw [roleOf, hb'] at hrole
    cases hrole
  | target h' =>
    obtain ⟨rfl, rfl⟩ := reference_inj h.1 h'.1
    cases h.2.symm.trans h'.2
  | base h' hi _ hbase =>
    obtain ⟨rfl, rfl⟩ := reference_inj h.1 h'.1
    exact .inl ⟨_, _, _, hi, hbase, rfl⟩
  | body h' ha =>
    obtain ⟨rfl, rfl⟩ := reference_inj h.1 h'.1
    exact .inr ⟨_, _, ha, rfl⟩

/-- A declared name reads no keys. -/
theorem ReadsKeys.of_declared {key : TypePlace} (h : p.DeclaredName place name args) :
    ¬ p.ReadsKeys schemas n place key := fun hreads => by
  cases hreads with
  | intro h' =>
    obtain ⟨rfl, rfl⟩ := reference_inj h.1 h'.1
    cases h.2.symm.trans h'.2

/-- A parameter reads no keys of a utility type. -/
theorem ReadsKeys.of_parameter {key : TypePlace} {b : Binding}
    (h : place.type.form = .reference name args)
    (hrole : p.roleOf place.file place.scope name = .parameter b) :
    ¬ p.ReadsKeys schemas n place key := fun hreads => by
  cases hreads with
  | intro h' =>
    obtain ⟨rfl, rfl⟩ := reference_inj h h'.1
    cases hrole.symm.trans h'.2

variable {good : Nat → TypePlace → Prop}

/-- What holds throughout the bases of an interface holds throughout a reference to it. -/
theorem throughout_interface {i : InterfaceDecl} (hgood : good (n + 1) place)
    (h : p.DeclaredName place name args)
    (hi : p.resolve (n + 1) place.file name = some (.interface path i))
    (hbases : ∀ base ∈ i.bases, Throughout (p.Calls schemas) good n
      ⟨path, p.bodyScope place path args i.typeParams, base⟩) :
    Throughout (p.Calls schemas) good (n + 1) place := by
  refine ⟨hgood, fun next hcall => ?_⟩
  rcases hcall.of_declared h with ⟨path', i', base, hi', hbase, rfl⟩ | ⟨path', a, ha, -⟩
  · obtain ⟨rfl, rfl⟩ := Symbol.interface.inj (Option.some.inj (hi.symm.trans hi'))
    exact hbases base hbase
  · cases hi.symm.trans ha

/-- What holds throughout the body of an alias holds throughout a reference to it. -/
theorem throughout_alias {a : AliasDecl} (hgood : good (n + 1) place)
    (h : p.DeclaredName place name args)
    (ha : p.resolve (n + 1) place.file name = some (.typeAlias path a))
    (hbody : Throughout (p.Calls schemas) good n
      ⟨path, p.bodyScope place path args a.typeParams, a.type⟩) :
    Throughout (p.Calls schemas) good (n + 1) place := by
  refine ⟨hgood, fun next hcall => ?_⟩
  rcases hcall.of_declared h with ⟨path', i, base, hi, -⟩ | ⟨path', a', ha', rfl⟩
  · cases ha.symm.trans hi
  · obtain ⟨rfl, rfl⟩ := Symbol.typeAlias.inj (Option.some.inj (ha.symm.trans ha'))
    exact hbody

/-- What holds throughout the first argument of a utility type holds throughout the type. -/
theorem throughout_utility {target : TypeExpr} (hgood : good (n + 1) place)
    (h : p.UtilityAt place name args) (htarget : args.head? = some target)
    (hbelow : Throughout (p.Calls schemas) good n { place with type := target }) :
    Throughout (p.Calls schemas) good (n + 1) place := by
  refine ⟨hgood, fun next hcall => ?_⟩
  obtain ⟨target', htarget', rfl⟩ := hcall.of_utility h
  obtain rfl := Option.some.inj (htarget.symm.trans htarget')
  exact hbelow

/-- What holds throughout that which a parameter is bound to holds throughout the parameter. -/
theorem throughout_parameter {b : Binding} (hgood : good (n + 1) place)
    (h : place.type.form = .reference name args) (hb : boundTo place.scope name = some b)
    (hbelow : Throughout (p.Calls schemas) good n ⟨b.file, b.scope, b.type⟩) :
    Throughout (p.Calls schemas) good (n + 1) place := by
  refine ⟨hgood, fun next hcall => ?_⟩
  rw [hcall.of_parameter h hb]
  exact hbelow

/-- A literal has its key at once. -/
theorem throughout_keyLiteral {value : String} (hgood : good n place)
    (h : place.type.form = .literal value) : Throughout p.KeyCalls good n place := by
  cases n with
  | zero => exact hgood
  | succ n =>
    refine ⟨hgood, fun next hcall => ?_⟩
    cases hcall with
    | paren h' | option h' | parameter h' => cases h.symm.trans h'
    | body h' => cases h.symm.trans h'.1

/-- What holds throughout the keys of that which a parameter is bound to holds throughout those of
the parameter. -/
theorem throughout_keyParameter {b : Binding} (hgood : good (n + 1) place)
    (h : place.type.form = .reference name []) (hb : boundTo place.scope name = some b)
    (hbelow : Throughout p.KeyCalls good n ⟨b.file, b.scope, b.type⟩) :
    Throughout p.KeyCalls good (n + 1) place := by
  refine ⟨hgood, fun next hcall => ?_⟩
  cases hcall with
  | paren h' | option h' => cases h.symm.trans h'
  | parameter h' hb' =>
    obtain ⟨rfl, -⟩ := reference_inj h h'
    obtain rfl := Option.some.inj (hb.symm.trans hb')
    exact hbelow
  | body h' =>
    obtain ⟨rfl, -⟩ := reference_inj h h'.1
    cases hb.symm.trans h'.2

end

end Program

end IpcWiring
