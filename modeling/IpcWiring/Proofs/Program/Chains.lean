import Mathlib.Logic.Relation
import IpcWiring.Proofs.Program.Exports

/-!
# Chains of names

A type name leads to a declaration along a chain of names that the modules record: an import, a
local export, a named re-export or an `export *` takes a name of a file to a name of the same or of
another loaded file (`Program.Leads`). Resolution finds nothing that is not the end of such a chain
(`Program.endsChain_of_follow`). A chain is clear (`Program.ClearChain`) if no earlier rule of a
module shadows a step of it and no `export *` is asked on the way; resolution follows it to its end
just if it has more steps than the chain costs (`Program.follow_eq_of_clear`).
-/

namespace IpcWiring

open Script

/-- A type name where it stands: used inside a file, or exported by it. -/
inductive NamePlace where
  | inside (file : Path) (name : TypeName)
  | exported (file : Path) (name : String)

/-- The symbol is declared in some file of the program. -/
def Symbol.IsDeclaration : Symbol → Prop
  | external _ => False
  | interface .. | typeAlias .. | opaqueType _ => True

namespace Program

/-- What a name leads to from where it stands, within a number of steps. -/
def follow (p : Program) (steps : Nat) : NamePlace → Option Symbol
  | .inside file name => p.resolve steps file name
  | .exported file name => p.resolveExport steps file name

/-- The file where the name stands declares the symbol under it: an interface before an alias, and
an alias before an enumeration or a class. -/
inductive DeclaresAt (p : Program) (s : Symbol) : NamePlace → Prop
  | intro {file : Path} {name : String} {m : SourceModule} (hm : p.module? file = some m)
    (hs : Lookup.types.declared m name = some s) : DeclaresAt p s (.inside file (.simple name))

/-- One step of a chain, as a module records it: every specifier leads to a loaded module. -/
inductive Leads (p : Program) : NamePlace → NamePlace → Prop
  /-- The name is imported. -/
  | imported {file target : Path} {m : SourceModule} {name known : String} {b : ImportBinding}
    (hm : p.module? file = some m) (hb : m.imports.find? name = some b)
    (hknown : importedName? b.kind = some known) (ht : p.targetOf file b.specifier = some target) :
    Leads p (.inside file (.simple name)) (.exported target known)
  /-- The name is that of a member of an imported module. -/
  | member {file target : Path} {m : SourceModule} {name member : String} {b : ImportBinding}
    (hm : p.module? file = some m) (hb : m.imports.find? name = some b)
    (hwhole : b.kind = .wholeModule) (ht : p.targetOf file b.specifier = some target) :
    Leads p (.inside file ⟨name, [member]⟩) (.exported target member)
  /-- A local name is exported. -/
  | ofLocal {file : Path} {m : SourceModule} {name inner : String} (hm : p.module? file = some m)
    (he : m.exports.find? name = some inner) :
    Leads p (.exported file name) (.inside file (.simple inner))
  /-- The name is re-exported. -/
  | named {file target : Path} {m : SourceModule} {name known specifier : String}
    (hm : p.module? file = some m) (hr : .named name known specifier ∈ m.reexports)
    (ht : p.targetOf file specifier = some target) :
    Leads p (.exported file name) (.exported target known)
  /-- All names of a module are re-exported. -/
  | star {file target : Path} {m : SourceModule} {name specifier : String}
    (hm : p.module? file = some m) (hr : .all specifier ∈ m.reexports)
    (ht : p.targetOf file specifier = some target) :
    Leads p (.exported file name) (.exported target name)

/-- A chain to a symbol in which no step is shadowed by an earlier rule of its module and no
`export *` is asked, with its cost: one for each import, local export and named re-export. -/
inductive ClearChain (p : Program) (s : Symbol) : NamePlace → Nat → Prop
  | declared {file : Path} {m : SourceModule} {name : String} (hm : p.module? file = some m)
    (hs : Lookup.types.declared m name = some s) : ClearChain p s (.inside file (.simple name)) 0
  | imported {file target : Path} {m : SourceModule} {name known : String} {b : ImportBinding}
    {cost : Nat} (hm : p.module? file = some m) (hclear : Lookup.types.declared m name = none)
    (hb : m.imports.find? name = some b) (hknown : importedName? b.kind = some known)
    (ht : p.targetOf file b.specifier = some target)
    (rest : ClearChain p s (.exported target known) cost) :
    ClearChain p s (.inside file (.simple name)) (cost + 1)
  | member {file target : Path} {m : SourceModule} {name member : String} {b : ImportBinding}
    {cost : Nat} (hm : p.module? file = some m) (hb : m.imports.find? name = some b)
    (hwhole : b.kind = .wholeModule) (ht : p.targetOf file b.specifier = some target)
    (rest : ClearChain p s (.exported target member) cost) :
    ClearChain p s (.inside file ⟨name, [member]⟩) (cost + 1)
  | ofLocal {file : Path} {m : SourceModule} {name inner : String} {cost : Nat}
    (hm : p.module? file = some m) (he : m.exports.find? name = some inner)
    (rest : ClearChain p s (.inside file (.simple inner)) cost) :
    ClearChain p s (.exported file name) (cost + 1)
  | named {file target : Path} {m : SourceModule} {name known specifier : String}
    {before after : List ReExport} {cost : Nat} (hm : p.module? file = some m)
    (hclear : m.exports.find? name = none)
    (hr : m.reexports = before ++ .named name known specifier :: after)
    (hbefore : ∀ r ∈ before, r.isNamed name = false ∧ r.star? = none)
    (ht : p.targetOf file specifier = some target)
    (rest : ClearChain p s (.exported target known) cost) :
    ClearChain p s (.exported file name) (cost + 1)

section

variable {p : Program} {file : Path} {m : SourceModule} {name specifier : String} {n : Nat}
  {s : Symbol}

/-! ## One step of resolution -/

/-- Inside a file, a declaration settles a name, and an import leads on. -/
theorem resolveLocal_succ (hm : p.module? file = some m) : p.resolveLocal (n + 1) file name =
    match Lookup.types.declared m name with
    | some s => some s
    | none => (m.imports.find? name).bind fun b => (importedName? b.kind).bind fun known =>
      p.viaSpecifier (p.resolveExport n) file b.specifier known := by
  rw [(p.resolve_eq (n + 1)).1, Lookup.inFile, ← (p.resolve_eq n).2, hm]
  simp only [bind, Option.bind_some]
  cases Lookup.types.declared m name <;> rfl

/-- Among the exports of a file, a local export settles a name, and the re-exports lead on. -/
theorem resolveExport_succ (hm : p.module? file = some m) : p.resolveExport (n + 1) file name =
    match m.exports.find? name with
    | some inner => p.resolveLocal n file inner
    | none => (Lookup.types.routes p (p.resolveExport n) file name).inOrder true name m.reexports
    := by
  rw [(p.resolve_eq (n + 1)).2, Lookup.amongExports, ← (p.resolve_eq n).1, ← (p.resolve_eq n).2, hm]
  rfl

/-- A declaration behind a specifier is found in the file that the specifier leads to. -/
theorem exists_target_of_viaSpecifier {exported : Path → String → Option Symbol}
    (h : p.viaSpecifier exported file specifier name = some s) (hs : s.IsDeclaration) :
    ∃ target, p.targetOf file specifier = some target ∧ exported target name = some s := by
  rw [viaSpecifier] at h
  cases ht : p.targetOf file specifier with
  | some target =>
    rw [ht] at h
    exact ⟨target, rfl, h⟩
  | none =>
    rw [ht] at h
    cases h
    exact hs.elim

/-- A name of a loaded module is a name of the file that its specifier leads to. -/
theorem viaSpecifier_eq {exported : Path → String → Option Symbol} {target : Path}
    (ht : p.targetOf file specifier = some target) :
    p.viaSpecifier exported file specifier name = exported target name := by
  rw [viaSpecifier, ht]

/-! ## What is found is the end of a chain -/

/-- A symbol is the end of a chain from a place. -/
def EndsChain (p : Program) (s : Symbol) (place : NamePlace) : Prop :=
  ∃ last, Relation.ReflTransGen p.Leads place last ∧ p.DeclaresAt s last

/-- A chain is one step longer than its rest. -/
theorem EndsChain.head {place next : NamePlace} (h : p.Leads place next)
    (hrest : p.EndsChain s next) : p.EndsChain s place := by
  obtain ⟨last, hchain, hlast⟩ := hrest
  exact ⟨last, hchain.head h, hlast⟩

/-- A name that is found among the exports of a module is found along one of its re-exports. -/
theorem EndsChain.of_along {r : ReExport} (hm : p.module? file = some m) (hr : r ∈ m.reexports)
    (h : (Lookup.types.routes p (p.resolveExport n) file name).along name r = some s)
    (hs : s.IsDeclaration) (ih : ∀ target known, p.resolveExport n target known = some s →
      p.EndsChain s (.exported target known)) : p.EndsChain s (.exported file name) := by
  cases r with
  | named exported known specifier =>
    rw [Routes.along] at h
    split at h
    · next hsame =>
      obtain rfl := beq_iff_eq.1 hsame
      have h : p.viaSpecifier (p.resolveExport n) file specifier known = some s := h
      obtain ⟨target, ht, hfound⟩ := exists_target_of_viaSpecifier h hs
      exact .head (.named hm hr ht) (ih target known hfound)
    · cases h
  | all specifier =>
    obtain ⟨target, ht, hfound⟩ := Option.bind_eq_some_iff.1 h
    exact .head (.star hm hr ht) (ih target name hfound)
  | wholeModule => cases h

/-- What a name leads to, in a file or among its exports, is the end of a chain. -/
theorem endsChain_steps (hs : s.IsDeclaration) (n : Nat) :
    (∀ file name, p.resolveLocal n file name = some s →
      p.EndsChain s (.inside file (.simple name))) ∧
    ∀ file name, p.resolveExport n file name = some s → p.EndsChain s (.exported file name) := by
  induction n with
  | zero => exact ⟨nofun, nofun⟩
  | succ n ih =>
    refine ⟨fun file name h => ?_, fun file name h => ?_⟩
    · cases hm : p.module? file with
      | none => rw [resolveLocal, hm] at h; cases h
      | some m =>
        rw [resolveLocal_succ hm] at h
        cases hdeclared : Lookup.types.declared m name with
        | some s' =>
          rw [hdeclared] at h
          exact ⟨_, .refl, .intro hm (hdeclared.trans h)⟩
        | none =>
          rw [hdeclared] at h
          obtain ⟨b, hb, h⟩ := Option.bind_eq_some_iff.1 h
          obtain ⟨known, hknown, h⟩ := Option.bind_eq_some_iff.1 h
          obtain ⟨target, ht, hfound⟩ := exists_target_of_viaSpecifier h hs
          exact .head (.imported hm hb hknown ht) (ih.2 target known hfound)
    · cases hm : p.module? file with
      | none => rw [resolveExport, hm] at h; cases h
      | some m =>
        rw [resolveExport_succ hm] at h
        cases he : m.exports.find? name with
        | some inner =>
          rw [he] at h
          exact .head (.ofLocal hm he) (ih.1 file inner h)
        | none =>
          rw [he] at h
          obtain ⟨before, r, after, hr, -, halong⟩ := (Routes.inOrder_eq_some_iff _).1 h
          exact .of_along hm (hr ▸ by simp) halong hs ih.2

/-- What a name leads to from where it stands is the end of a chain. -/
theorem endsChain_of_follow {place : NamePlace} (h : p.follow n place = some s)
    (hs : s.IsDeclaration) : p.EndsChain s place := by
  match place, h with
  | .exported file name, h => exact (endsChain_steps hs n).2 file name h
  | .inside file ⟨name, []⟩, h => exact (endsChain_steps hs n).1 file name h
  | .inside file ⟨name, _ :: _ :: _⟩, h => cases h
  | .inside file ⟨name, [member]⟩, h =>
    obtain ⟨m, hm, h⟩ := Option.bind_eq_some_iff.1 h
    obtain ⟨b, hb, h⟩ := Option.bind_eq_some_iff.1 h
    simp only [bind] at h
    split at h
    · cases h
    · next hwhole =>
      obtain ⟨target, ht, hfound⟩ := exists_target_of_viaSpecifier h hs
      exact .head (.member hm hb (by simpa using hwhole) ht)
        ((endsChain_steps hs (n - 1)).2 target member hfound)

/-! ## Clear chains are followed to their ends -/

/-- Re-exports that neither name the name nor re-export all names are passed over. -/
theorem inOrder_append {w : Routes Symbol} {before : List ReExport} (rest : List ReExport)
    (hbefore : ∀ r ∈ before, r.isNamed name = false ∧ r.star? = none) :
    w.inOrder true name (before ++ rest) = w.inOrder true name rest := by
  induction before with
  | nil => rfl
  | cons r before ih =>
    obtain ⟨hnamed, hstar⟩ := hbefore r List.mem_cons_self
    have halong : w.along name r = none := by
      cases r with
      | named exported known specifier =>
        have hother : (exported == name) = false := hnamed
        rw [Routes.along, hother]
        rfl
      | all specifier => cases hstar
      | wholeModule => rfl
    rw [List.cons_append, Routes.inOrder, halong, hnamed]
    exact ih fun r hr => hbefore r (List.mem_cons_of_mem _ hr)

/-- A named re-export settles the name. -/
theorem inOrder_named {w : Routes Symbol} {known : String} (rest : List ReExport) :
    w.inOrder true name (.named name known specifier :: rest) = w.named specifier known := by
  rw [Routes.inOrder, Routes.along, if_pos (beq_self_eq_true name)]
  cases w.named specifier known with
  | some s => rfl
  | none => simp [ReExport.isNamed]

/-- A clear chain is followed to its end just with more steps than it costs. -/
theorem follow_eq_of_clear {place : NamePlace} {cost : Nat} (h : p.ClearChain s place cost) :
    ∀ steps, p.follow steps place = if cost < steps then some s else none := by
  induction h with
  | @declared file m name hm hs =>
    intro steps
    cases steps with
    | zero => rfl
    | succ n =>
      have hlocal : p.resolveLocal (n + 1) file name = _ := resolveLocal_succ hm
      rw [hs] at hlocal
      rw [if_pos (Nat.succ_pos n)]
      exact hlocal
  | @imported file target m name known b cost hm hclear hb hknown ht _ ih =>
    intro steps
    cases steps with
    | zero => rfl
    | succ n =>
      have hlocal : p.resolveLocal (n + 1) file name = _ := resolveLocal_succ hm
      rw [hclear] at hlocal
      simp only [hb, hknown, Option.bind_some, viaSpecifier_eq ht] at hlocal
      simp only [Nat.add_lt_add_iff_right, ← ih n]
      exact hlocal
  | @member file target m name member b cost hm hb hwhole ht _ ih =>
    intro steps
    have hfollow : p.follow steps (.inside file ⟨name, [member]⟩) =
        p.follow (steps - 1) (.exported target member) := by
      simp [follow, resolve, hm, hb, hwhole, viaSpecifier_eq ht]
    simp only [hfollow, ih, Nat.lt_sub_iff_add_lt]
  | @ofLocal file m name inner cost hm he _ ih =>
    intro steps
    cases steps with
    | zero => rfl
    | succ n =>
      have hexport : p.resolveExport (n + 1) file name = _ := resolveExport_succ hm
      rw [he] at hexport
      simp only [Nat.add_lt_add_iff_right, ← ih n]
      exact hexport
  | @named file target m name known specifier before after cost hm hclear hr hbefore ht _ ih =>
    intro steps
    cases steps with
    | zero => rfl
    | succ n =>
      have hexport : p.resolveExport (n + 1) file name = _ := resolveExport_succ hm
      rw [hclear, hr] at hexport
      dsimp only at hexport
      rw [inOrder_append _ hbefore, inOrder_named] at hexport
      simp only [Nat.add_lt_add_iff_right, ← ih n]
      exact hexport.trans (viaSpecifier_eq ht)

end

/-- **Resolution follows the chains of names.** What a type name leads to is the end of a chain that
the modules record, if it is a declaration. A clear chain is followed to its end just with more
steps than it costs: from the start, where there are `maxSteps`, if it costs at most 16. -/
theorem resolution_follows_chains (p : Program) (file : Path) (name : TypeName) (s : Symbol) :
    (∀ steps, p.resolve steps file name = some s → s.IsDeclaration →
      p.EndsChain s (.inside file name)) ∧
    ∀ cost, p.ClearChain s (.inside file name) cost →
      ∀ steps, p.resolve steps file name = some s ↔ cost < steps := by
  refine ⟨fun steps (h : p.follow steps (.inside file name) = some s) hs =>
    endsChain_of_follow h hs, fun cost hclear steps => ?_⟩
  have hfollow : p.resolve steps file name = if cost < steps then some s else none :=
    follow_eq_of_clear hclear steps
  rw [hfollow, Option.ite_none_right_eq_some, and_iff_left rfl]

/-! ## An import through a named re-export -/

/-- The interface at the end of the chain. -/
def contextDecl : Symbol := .interface ⟨"/src/context.ts"⟩ ⟨"Context", [], [], [], false⟩

/-- A file that imports a name, an index that re-exports it under that name, and the file that
declares and exports it. -/
def renamedContext : Program where
  modules := [{ SourceModule.empty ⟨"/src/api.ts"⟩ with
      imports := ⟨[("Ctx", ⟨"./index", .named "ApiContext"⟩)]⟩ },
    { SourceModule.empty ⟨"/src/index.ts"⟩ with
      reexports := [.named "Other" "Other" "./other", .named "ApiContext" "Context" "./context"] },
    { SourceModule.empty ⟨"/src/context.ts"⟩ with
      exports := ⟨[("Context", "Context")]⟩
      interfaces := ⟨[("Context", ⟨"Context", [], [], [], false⟩)]⟩ }]
  unreadable := []

/-- The chain has an import, a named re-export and a local export. -/
theorem clearChain_renamedContext :
    renamedContext.ClearChain contextDecl (.inside ⟨"/src/api.ts"⟩ (.simple "Ctx")) 3 := by
  have hdeclared : renamedContext.ClearChain contextDecl
      (.inside ⟨"/src/context.ts"⟩ (.simple "Context")) 0 := .declared rfl rfl
  have hlocal : renamedContext.ClearChain contextDecl
      (.exported ⟨"/src/context.ts"⟩ "Context") 1 := .ofLocal rfl rfl hdeclared
  have hother : ∀ r ∈ [ReExport.named "Other" "Other" "./other"],
      r.isNamed "ApiContext" = false ∧ r.star? = none := by
    simp [ReExport.isNamed, ReExport.star?]
  have hnamed : renamedContext.ClearChain contextDecl
      (.exported ⟨"/src/index.ts"⟩ "ApiContext") 2 := .named rfl rfl rfl hother rfl hlocal
  exact .imported rfl rfl rfl rfl rfl hnamed

/-- The name leads to the interface with four steps, and the interface is the end of a chain. -/
theorem resolution_follows_chains_renamed :
    renamedContext.resolve maxSteps ⟨"/src/api.ts"⟩ (.simple "Ctx") = some contextDecl ∧
      renamedContext.resolve 3 ⟨"/src/api.ts"⟩ (.simple "Ctx") ≠ some contextDecl ∧
      renamedContext.EndsChain contextDecl (.inside ⟨"/src/api.ts"⟩ (.simple "Ctx")) := by
  obtain ⟨hends, hclear⟩ := resolution_follows_chains renamedContext ⟨"/src/api.ts"⟩
    (.simple "Ctx") contextDecl
  have hsteps := hclear 3 clearChain_renamedContext
  have hfound := (hsteps maxSteps).2 (by decide)
  exact ⟨hfound, fun h => absurd ((hsteps 3).1 h) (by decide), hends maxSteps hfound trivial⟩

end Program

end IpcWiring
