import IpcWiring.Program.Schemas
import IpcWiring.Proofs.Program.Closure

/-!
# Names among exports

Types and schemas are looked up alike (`Lookup`), but for the way through the re-exports of a file.
The rules of modules (`Routes.ruled`) ask a named re-export of the name first, wherever it stands,
and take no `default` through an `export *`. The program asks the re-exports in the order of the
source (`Routes.inOrder`), so that an `export *` can overtake the re-export that the rules ask
(`Routes.Overtaken`). A program follows the rules just if no name in it is overtaken, and the order
of named re-exports and `export *` then makes no difference (`Program.exports_ruled`).
-/

namespace IpcWiring

open Script

/-! ## Re-exports of one file -/

namespace ReExport

/-- The declaration exports the name under which another module knows something. -/
def isNamed (name : String) : ReExport → Bool
  | named exported _ _ => exported == name
  | wholeModule .. | all _ => false

/-- The module all of whose names are exported. -/
def star? : ReExport → Option String
  | all specifier => some specifier
  | named .. | wholeModule .. => none

/-- A named re-export of a name exports the name. -/
theorem name?_of_isNamed {name : String} {r : ReExport} (h : r.isNamed name = true) :
    r.name? = some name := by
  cases r with
  | named exported imported specifier => exact congrArg some (beq_iff_eq.1 h)
  | wholeModule | all => cases h

end ReExport

variable {α : Type}

/-- Where the re-exports of a file lead for one name: through a named one, and through all names of
a module. -/
structure Routes (α : Type) where
  named (specifier imported : String) : Option α
  all (specifier : String) : Option α

namespace Routes

variable (w : Routes α) {settles : Bool} {name : String} {rs : List ReExport} {a : α}

/-- What a single re-export gives the name. -/
def along (name : String) : ReExport → Option α
  | .named exported imported specifier =>
    if exported == name then w.named specifier imported else none
  | .all specifier => w.all specifier
  | .wholeModule .. => none

/-- What the rules of modules give the name: a named re-export of it, wherever it stands; if there
is none, nothing for the default export and for a name that stands for a whole module, and else what
the first `export *` gives that knows the name. -/
def ruled (name : String) (rs : List ReExport) : Option α :=
  match rs.find? (·.isNamed name) with
  | some r => w.along name r
  | none =>
    if name = "default" ∨ ∃ r ∈ rs, r.name? = some name then none
    else (rs.filterMap ReExport.star?).findSome? w.all

/-- What the re-exports give the name in their order. A named re-export of the name that leads
nowhere ends the search if it `settles` the name. -/
def inOrder (settles : Bool) (name : String) : List ReExport → Option α
  | [] => none
  | r :: rest =>
    match w.along name r with
    | some a => some a
    | none => if settles && r.isNamed name then none else inOrder settles name rest

/-- The first re-export in order that gives the name something gives something else than the rules
do. -/
def Overtaken (settles : Bool) (name : String) (rs : List ReExport) : Prop :=
  ∃ before r after a, rs = before ++ r :: after ∧
    (∀ b ∈ before, w.along name b = none ∧ (settles && b.isNamed name) = false) ∧
    w.along name r = some a ∧ w.ruled name rs ≠ some a

/-- What the re-exports give in order is given by the first that gives anything. -/
theorem inOrder_eq_some_iff : w.inOrder settles name rs = some a ↔
    ∃ before r after, rs = before ++ r :: after ∧
      (∀ b ∈ before, w.along name b = none ∧ (settles && b.isNamed name) = false) ∧
      w.along name r = some a := by
  induction rs with
  | nil => simp [inOrder]
  | cons r rest ih =>
    rw [inOrder]
    constructor
    · intro h
      cases hr : w.along name r with
      | some b =>
        rw [hr] at h
        exact ⟨[], r, rest, rfl, nofun, hr.trans h⟩
      | none =>
        rw [hr] at h
        dsimp only at h
        split at h
        · cases h
        · next hpassed =>
          obtain ⟨before, r', after, rfl, hbefore, hr'⟩ := ih.1 h
          refine ⟨r :: before, r', after, rfl, fun b hb => ?_, hr'⟩
          rcases List.mem_cons.1 hb with rfl | hb
          exacts [⟨hr, Bool.eq_false_iff.2 hpassed⟩, hbefore b hb]
    · rintro ⟨before, r', after, heq, hbefore, hr'⟩
      cases before with
      | nil =>
        obtain ⟨rfl, rfl⟩ := List.cons.inj heq
        rw [hr']
      | cons b before =>
        obtain ⟨rfl, rfl⟩ := List.cons.inj heq
        obtain ⟨hnone, hpassed⟩ := hbefore _ List.mem_cons_self
        rw [hnone, if_neg (Bool.eq_false_iff.1 hpassed)]
        exact ih.2 ⟨before, r', after, rfl, fun b hb => hbefore b (List.mem_cons_of_mem _ hb), hr'⟩

/-- What the re-exports that name nothing of a name give it is what the stars among them give. -/
theorem inOrder_eq_findSome? (h : ∀ r ∈ rs, r.isNamed name = false) :
    w.inOrder settles name rs = (rs.filterMap ReExport.star?).findSome? w.all := by
  induction rs with
  | nil => rfl
  | cons r rest ih =>
    have hr := h r List.mem_cons_self
    have ih := ih fun r hr => h r (List.mem_cons_of_mem _ hr)
    rw [inOrder, hr, Bool.and_false, if_neg Bool.false_ne_true, ih]
    cases r with
    | named exported imported specifier =>
      have hother : (exported == name) = false := hr
      simp only [along, hother, Bool.false_eq_true, if_false, List.filterMap_cons, ReExport.star?]
    | wholeModule exported specifier => rfl
    | all specifier =>
      rw [List.filterMap_cons_some (f := ReExport.star?) rfl, List.findSome?_cons]
      rfl

/-- The first named re-export of the name leads nowhere where the re-exports in order do not. -/
theorem along_eq_none (h : w.inOrder settles name rs = none) {r : ReExport}
    (hr : rs.find? (·.isNamed name) = some r) : w.along name r = none := by
  induction rs with
  | nil => cases hr
  | cons b rest ih =>
    rw [inOrder] at h
    rw [List.find?_cons] at hr
    cases hb : w.along name b with
    | some a => rw [hb] at h; cases h
    | none =>
      rw [hb] at h
      cases hnamed : b.isNamed name with
      | true =>
        rw [hnamed] at hr
        exact Option.some.inj hr ▸ hb
      | false =>
        rw [hnamed] at hr
        rw [hnamed, Bool.and_false] at h
        exact ih h hr

/-- The rules give nothing where the re-exports in order do not. -/
theorem ruled_eq_none (h : w.inOrder settles name rs = none) : w.ruled name rs = none := by
  rw [ruled]
  cases hfind : rs.find? (·.isNamed name) with
  | some r => exact w.along_eq_none h hfind
  | none =>
    rw [w.inOrder_eq_findSome? fun r hr => Bool.eq_false_iff.2 (List.find?_eq_none.1 hfind r hr)]
      at h
    dsimp only
    rw [h, ite_self]

/-- The order of the re-exports follows the rules unless the name is overtaken. -/
theorem inOrder_eq_ruled_iff :
    w.inOrder settles name rs = w.ruled name rs ↔ ¬ w.Overtaken settles name rs := by
  cases h : w.inOrder settles name rs with
  | none =>
    rw [w.ruled_eq_none h]
    refine iff_of_true rfl ?_
    rintro ⟨before, r, after, a, heq, hbefore, hr, -⟩
    rw [w.inOrder_eq_some_iff.2 ⟨before, r, after, heq, hbefore, hr⟩] at h
    cases h
  | some a =>
    obtain ⟨before, r, after, heq, hbefore, hr⟩ := w.inOrder_eq_some_iff.1 h
    constructor
    · rintro hrule ⟨before, r, after, b, heq, hbefore, hr, hne⟩
      rw [w.inOrder_eq_some_iff.2 ⟨before, r, after, heq, hbefore, hr⟩] at h
      exact hne (hrule.symm.trans h.symm)
    · intro hnot
      by_contra hne
      exact hnot ⟨before, r, after, a, heq, hbefore, hr, fun hrule => hne hrule.symm⟩

/-- Only the default export and names that are re-exported by name are overtaken. -/
theorem Overtaken.default_or_mem (h : w.Overtaken settles name rs) :
    name = "default" ∨ ∃ r ∈ rs, r.name? = some name := by
  by_contra hnot
  have hnamed : ∀ r ∈ rs, r.isNamed name = false := fun r hr => Bool.eq_false_iff.2 fun h =>
    hnot (.inr ⟨r, hr, ReExport.name?_of_isNamed h⟩)
  refine w.inOrder_eq_ruled_iff.1 ?_ h
  have hfind : rs.find? (·.isNamed name) = none :=
    List.find?_eq_none.2 fun r hr => Bool.eq_false_iff.1 (hnamed r hr)
  rw [w.inOrder_eq_findSome? hnamed, ruled, hfind]
  dsimp only
  rw [if_neg hnot]

/-- The rules do not depend on how named re-exports and stars stand to each other. -/
theorem ruled_congr {rs' : List ReExport}
    (hnamed : rs.filter (·.name?.isSome) = rs'.filter (·.name?.isSome))
    (hstars : rs.filterMap ReExport.star? = rs'.filterMap ReExport.star?) :
    w.ruled name rs = w.ruled name rs' := by
  have hfind : ∀ rs : List ReExport, rs.find? (·.isNamed name) =
      (rs.filter (·.name?.isSome)).find? (·.isNamed name) := fun rs => by
    rw [List.find?_filter]
    refine List.find?_congr fun r _ => ?_
    cases hr : r.isNamed name with
    | true => rw [ReExport.name?_of_isNamed hr]; rfl
    | false => simp
  have hexists : ∀ rs : List ReExport, (∃ r ∈ rs, r.name? = some name) ↔
      ∃ r ∈ rs.filter (·.name?.isSome), r.name? = some name := fun rs => by
    refine exists_congr fun r => ?_
    rw [List.mem_filter, and_assoc]
    refine and_congr_right fun _ => ⟨fun h => ⟨by rw [h]; rfl, h⟩, And.right⟩
  unfold ruled
  simp only [hfind rs, hfind rs', hexists rs, hexists rs', hnamed, hstars]

end Routes

/-! ## Programs -/

/-- What is looked up by name: what a module declares under a name, whatever it re-exports, and what
stands for a name of a module that is not part of the program. -/
structure Lookup (α : Type) where
  declared : SourceModule → String → Option α
  external : String → Option α
  declared_reexports : ∀ (m : SourceModule) (rs : List ReExport) (name : String),
    declared { m with reexports := rs } name = declared m name

namespace Lookup

/-- Types. -/
def types : Lookup Symbol where
  declared m name :=
    (m.interfaces.find? name).map (.interface m.path) <|>
      (m.aliases.find? name).map (.typeAlias m.path) <|>
        if m.opaqueTypes.contains name then some (.opaqueType name) else none
  external name := some (.external name)
  declared_reexports _ _ _ := rfl

/-- Schemas. -/
def schemas : Lookup FoundSchema where
  declared m name := (m.schemas.find? name).map (⟨m.path, ·⟩)
  external _ := none
  declared_reexports _ _ _ := rfl

variable (k : Lookup α) (p : Program)

/-- What a name of the module of a specifier leads to. -/
def via (exported : Path → String → Option α) (file : Path) (specifier name : String) : Option α :=
  match p.targetOf file specifier with
  | some target => exported target name
  | none => k.external name

/-- The re-exports of a file, for one name. -/
def routes (exported : Path → String → Option α) (file : Path) (name : String) : Routes α where
  named specifier imported := k.via p exported file specifier imported
  all specifier := (p.targetOf file specifier).bind (exported · name)

/-- How something is picked from the re-exports of a file. -/
abbrev Pick (α : Type) := Routes α → String → List ReExport → Option α

mutual

/-- What a name leads to inside a file. -/
def inFile (pick : Pick α) (steps : Nat) (file : Path) (name : String) : Option α :=
  match steps with
  | 0 => none
  | n + 1 => do
    let m ← p.module? file
    match k.declared m name with
    | some a => some a
    | none =>
      let binding ← m.imports.find? name
      let imported ← Program.importedName? binding.kind
      k.via p (amongExports pick n) file binding.specifier imported

/-- What a name leads to among the exports of a file. -/
def amongExports (pick : Pick α) (steps : Nat) (file : Path) (name : String) : Option α :=
  match steps with
  | 0 => none
  | n + 1 => do
    let m ← p.module? file
    match m.exports.find? name with
    | some inner => inFile pick n file inner
    | none => pick (k.routes p (amongExports pick n) file name) name m.reexports

end

/-- Two ways to pick from re-exports look up the same within a number of steps. -/
def Same (pick pick' : Pick α) (n : Nat) : Prop :=
  k.inFile p pick n = k.inFile p pick' n ∧ k.amongExports p pick n = k.amongExports p pick' n

/-- Among the re-exports of a file, which lead where the rules lead within `n` steps, a name is
overtaken. -/
def Overtaken (settles : Bool) (n : Nat) (file : Path) (name : String) : Prop :=
  ∃ m, p.module? file = some m ∧ m.exports.find? name = none ∧
    (k.routes p (k.amongExports p Routes.ruled n) file name).Overtaken settles name m.reexports

/-- Nothing is overtaken in fewer than a number of steps. -/
def NoneOvertaken (settles : Bool) (steps : Nat) : Prop :=
  ∀ n < steps, ∀ file name, ¬ k.Overtaken p settles n file name

section

variable {p} {pick pick' : Pick α} {settles : Bool} {n : Nat} {file : Path} {name : String}

/-- One step more is the same if what is picked is. -/
theorem Same.succ (h : k.Same p pick pick' n)
    (hpick : ∀ file m name, p.module? file = some m → m.exports.find? name = none →
      pick (k.routes p (k.amongExports p pick' n) file name) name m.reexports =
        pick' (k.routes p (k.amongExports p pick' n) file name) name m.reexports) :
    k.Same p pick pick' (n + 1) := by
  obtain ⟨hlocal, hexports⟩ := h
  refine ⟨funext fun file => funext fun name => ?_, funext fun file => funext fun name => ?_⟩
  · rw [inFile, inFile, hexports]
  · rw [amongExports, amongExports, hlocal, hexports]
    refine Option.bind_congr fun m hm => ?_
    cases hname : m.exports.find? name with
    | some inner => rfl
    | none => exact hpick file m name hm hname

/-- Looking up in the order of the source follows the rules just if nothing is overtaken on the way.
-/
theorem same_ruled_iff {steps : Nat} :
    (∀ n ≤ steps, k.Same p (fun w => w.inOrder settles) Routes.ruled n) ↔
      k.NoneOvertaken p settles steps := by
  constructor
  · rintro h n hn file name ⟨m, hm, hname, hovertaken⟩
    have hsame := congrFun (congrFun (h (n + 1) hn).2 file) name
    rw [amongExports, amongExports, hm, (h n (Nat.le_of_lt hn)).2] at hsame
    simp only [bind, Option.bind_some, hname] at hsame
    exact (Routes.inOrder_eq_ruled_iff _).1 hsame hovertaken
  · intro h n
    induction n with
    | zero => exact fun _ => ⟨rfl, rfl⟩
    | succ n ih =>
      refine fun hn => (ih (Nat.le_of_lt hn)).succ k fun file m name hm hname => ?_
      exact (Routes.inOrder_eq_ruled_iff _).2 fun hovertaken =>
        h n hn file name ⟨m, hm, hname, hovertaken⟩

end

end Lookup

/-! ## Looking up types and schemas -/

namespace Program

section

variable (p : Program) (n : Nat) (file : Path) (name : String)

/-- The re-exports of a file give a type in their order. -/
theorem viaReExports_eq (exported : Path → String → Option Symbol) (rs : List ReExport) :
    p.viaReExports exported file name rs =
      (Lookup.types.routes p exported file name).inOrder true name rs := by
  induction rs with
  | nil => rfl
  | cons r rest ih =>
    rw [Routes.inOrder, ← ih]
    cases r with
    | named as imported specifier =>
      rw [viaReExports, Bool.true_and, Routes.along, ReExport.isNamed]
      have hvia : p.viaSpecifier exported file specifier imported =
          Lookup.types.via p exported file specifier imported := rfl
      split
      · rw [hvia]
        cases hfound : (Lookup.types.routes p exported file name).named specifier imported with
        | none => exact hfound
        | some a => exact hfound
      · rfl
    | wholeModule exported specifier => rfl
    | all specifier =>
      have halong : (Lookup.types.routes p exported file name).along name (.all specifier) =
          (p.targetOf file specifier).bind (exported · name) := rfl
      rw [viaReExports, halong]
      cases (p.targetOf file specifier).bind (exported · name) <;> rfl

/-- The re-exports of a file give a schema in their order, past those that lead nowhere. -/
theorem schemaViaReExports_eq (exported : Path → String → Option FoundSchema)
    (rs : List ReExport) : p.schemaViaReExports exported file name rs =
      (Lookup.schemas.routes p exported file name).inOrder false name rs := by
  induction rs with
  | nil => rfl
  | cons r rest ih =>
    have hvia : ∀ specifier imported, (p.targetOf file specifier).bind (exported · imported) =
        Lookup.schemas.via p exported file specifier imported := fun specifier imported => by
      unfold Lookup.via
      cases p.targetOf file specifier <;> rfl
    rw [Routes.inOrder, ← ih, Program.schemaViaReExports, List.findSome?_cons]
    cases r with
    | named as imported specifier =>
      dsimp only
      rw [hvia]
      rfl
    | wholeModule | all => rfl

/-- Types are looked up in the order of the source. -/
theorem resolve_eq :
    (p.resolveLocal n = Lookup.types.inFile p (fun w => w.inOrder true) n) ∧
      p.resolveExport n = Lookup.types.amongExports p (fun w => w.inOrder true) n := by
  induction n with
  | zero => exact ⟨rfl, rfl⟩
  | succ n ih =>
    refine ⟨funext fun file => funext fun name => ?_, funext fun file => funext fun name => ?_⟩
    · rw [resolveLocal, Lookup.inFile, ih.2]
      refine Option.bind_congr fun m _ => ?_
      have hdeclared : Lookup.types.declared m name =
        ((m.interfaces.find? name).map (.interface m.path) <|>
          (m.aliases.find? name).map (.typeAlias m.path) <|>
            if m.opaqueTypes.contains name then some (.opaqueType name) else none) := rfl
      rw [hdeclared]
      cases m.interfaces.find? name with
      | some i => rfl
      | none =>
        cases m.aliases.find? name with
        | some a => rfl
        | none =>
          cases m.opaqueTypes.contains name with
          | true => rfl
          | false => rfl
    · rw [resolveExport, Lookup.amongExports, ih.1, ih.2]
      refine Option.bind_congr fun m _ => ?_
      cases m.exports.find? name with
      | some inner => rfl
      | none => exact p.viaReExports_eq file name _ _

/-- Schemas are looked up in the order of the source. -/
theorem schema_eq :
    (p.schemaLocal n = Lookup.schemas.inFile p (fun w => w.inOrder false) n) ∧
      p.schemaExport n = Lookup.schemas.amongExports p (fun w => w.inOrder false) n := by
  induction n with
  | zero => exact ⟨rfl, rfl⟩
  | succ n ih =>
    refine ⟨funext fun file => funext fun name => ?_, funext fun file => funext fun name => ?_⟩
    · rw [schemaLocal, Lookup.inFile, ih.2]
      refine Option.bind_congr fun m _ => ?_
      have hdeclared : Lookup.schemas.declared m name =
        (m.schemas.find? name).map (⟨m.path, ·⟩) := rfl
      rw [hdeclared]
      cases m.schemas.find? name with
      | some s => rfl
      | none =>
        refine Option.bind_congr fun binding _ => Option.bind_congr fun imported _ => ?_
        unfold Lookup.via
        cases p.targetOf file binding.specifier <;> rfl
    · rw [schemaExport, Lookup.amongExports, ih.1, ih.2]
      refine Option.bind_congr fun m _ => ?_
      cases m.exports.find? name with
      | some inner => rfl
      | none => exact p.schemaViaReExports_eq file name _ _

/-- Types are looked up by the rules just if none is overtaken. -/
theorem types_ruled_iff {steps : Nat} :
    (∀ n ≤ steps, p.resolveLocal n = Lookup.types.inFile p Routes.ruled n ∧
      p.resolveExport n = Lookup.types.amongExports p Routes.ruled n) ↔
        Lookup.types.NoneOvertaken p true steps := by
  rw [← Lookup.same_ruled_iff]
  simp only [(p.resolve_eq _).1, (p.resolve_eq _).2, Lookup.Same]

/-- Schemas are looked up by the rules just if none is overtaken. -/
theorem schemas_ruled_iff {steps : Nat} :
    (∀ n ≤ steps, p.schemaLocal n = Lookup.schemas.inFile p Routes.ruled n ∧
      p.schemaExport n = Lookup.schemas.amongExports p Routes.ruled n) ↔
        Lookup.schemas.NoneOvertaken p false steps := by
  rw [← Lookup.same_ruled_iff]
  simp only [(p.schema_eq _).1, (p.schema_eq _).2, Lookup.Same]

end

end Program

/-! ## Rearranged re-exports -/

/-- The modules differ only in how named re-exports and stars stand to each other. -/
inductive SourceModule.Rearranged (m : SourceModule) : SourceModule → Prop
  | of {rs : List ReExport} (named : m.reexports.filter (·.name?.isSome) =
      rs.filter (·.name?.isSome))
    (stars : m.reexports.filterMap ReExport.star? = rs.filterMap ReExport.star?) :
    Rearranged m { m with reexports := rs }

namespace Program

/-- The modules of the programs differ only in how named re-exports and stars stand to each other.
-/
def Rearranged (p q : Program) : Prop :=
  ∀ file, Option.Rel SourceModule.Rearranged (p.module? file) (q.module? file)

variable {p q : Program} (h : p.Rearranged q)

include h

/-- Specifiers lead to the same files. -/
theorem Rearranged.targetOf_eq : p.targetOf = q.targetOf := by
  have hloaded : p.isLoaded = q.isLoaded := funext fun file => by
    have hfile := h file
    rw [Disk.isLoaded_eq_isSome, Disk.isLoaded_eq_isSome]
    generalize p.module? file = m?, q.module? file = m'? at hfile
    cases hfile <;> rfl
  unfold targetOf
  rw [hloaded]

/-- The rules look up the same. -/
theorem Rearranged.ruled_eq (k : Lookup α) (n : Nat) :
    k.inFile p Routes.ruled n = k.inFile q Routes.ruled n ∧
      k.amongExports p Routes.ruled n = k.amongExports q Routes.ruled n := by
  induction n with
  | zero => exact ⟨rfl, rfl⟩
  | succ n ih =>
    obtain ⟨hlocal, hexports⟩ := ih
    refine ⟨funext fun file => funext fun name => ?_, funext fun file => funext fun name => ?_⟩
    · have hfile := h file
      have hvia : k.via p (k.amongExports p Routes.ruled n) file =
          k.via q (k.amongExports q Routes.ruled n) file := by
        unfold Lookup.via
        rw [h.targetOf_eq, hexports]
      rw [Lookup.inFile, Lookup.inFile, hvia]
      generalize p.module? file = m?, q.module? file = m'? at hfile
      cases hfile with
      | none => rfl
      | some hm =>
        cases hm with
        | of _ _ => simp only [bind, Option.bind_some, k.declared_reexports]
    · have hfile := h file
      have hroutes : k.routes p (k.amongExports p Routes.ruled n) file name =
          k.routes q (k.amongExports q Routes.ruled n) file name := by
        unfold Lookup.routes Lookup.via
        rw [h.targetOf_eq, hexports]
      rw [Lookup.amongExports, Lookup.amongExports, hroutes, hlocal]
      generalize p.module? file = m?, q.module? file = m'? at hfile
      cases hfile with
      | none => rfl
      | some hm =>
        cases hm with
        | of named stars => simp only [bind, Option.bind_some, Routes.ruled_congr _ named stars]

/-- Type names of one or two segments lead to the same if exported names do. -/
theorem Rearranged.resolve_congr {n : Nat} (hlocal : p.resolveLocal n = q.resolveLocal n)
    (hexports : p.resolveExport (n - 1) = q.resolveExport (n - 1)) :
    p.resolve n = q.resolve n := by
  refine funext fun file => funext fun name => ?_
  obtain ⟨head, rest⟩ := name
  match rest with
  | [] => exact congrFun (congrFun hlocal file) head
  | _ :: _ :: _ => rfl
  | [member] =>
    have hfile := h file
    have hvia : p.viaSpecifier (p.resolveExport (n - 1)) file =
        q.viaSpecifier (q.resolveExport (n - 1)) file := by
      unfold viaSpecifier
      rw [h.targetOf_eq, hexports]
    unfold resolve
    dsimp only
    rw [hvia]
    generalize p.module? file = m?, q.module? file = m'? at hfile
    cases hfile with
    | none => rfl
    | some hm =>
      cases hm with
      | of _ _ => rfl

/-- Types are the same where none is overtaken. -/
theorem Rearranged.types_eq {steps : Nat} (hp : Lookup.types.NoneOvertaken p true steps)
    (hq : Lookup.types.NoneOvertaken q true steps) :
    p.resolve steps = q.resolve steps ∧ p.resolveExport steps = q.resolveExport steps := by
  have hsame : ∀ n ≤ steps, p.resolveLocal n = q.resolveLocal n ∧
      p.resolveExport n = q.resolveExport n := fun n hn => by
    obtain ⟨hlocal, hexports⟩ := p.types_ruled_iff.2 hp n hn
    obtain ⟨hlocal', hexports'⟩ := q.types_ruled_iff.2 hq n hn
    rw [hlocal, hexports, hlocal', hexports']
    exact h.ruled_eq Lookup.types n
  obtain ⟨hlocal, hexports⟩ := hsame steps le_rfl
  exact ⟨h.resolve_congr hlocal (hsame (steps - 1) (Nat.sub_le _ _)).2, hexports⟩

/-- Schemas are the same where none is overtaken. -/
theorem Rearranged.schemas_eq {steps : Nat} (hp : Lookup.schemas.NoneOvertaken p false steps)
    (hq : Lookup.schemas.NoneOvertaken q false steps) :
    p.schemaLocal steps = q.schemaLocal steps ∧ p.schemaExport steps = q.schemaExport steps := by
  obtain ⟨hlocal, hexports⟩ := p.schemas_ruled_iff.2 hp steps le_rfl
  obtain ⟨hlocal', hexports'⟩ := q.schemas_ruled_iff.2 hq steps le_rfl
  rw [hlocal, hexports, hlocal', hexports']
  exact h.ruled_eq Lookup.schemas steps

omit h

/-- A module that exports a type, also as its default, and a schema. -/
def twoExports (path : Path) (builder : String) : SourceModule :=
  { SourceModule.empty path with
    exports := ⟨[("User", "User"), ("default", "User"), ("UserSchema", "UserSchema")]⟩
    aliases := ⟨[("User", ⟨"User", [], .ofKeyword builder 0, 0⟩)]⟩
    schemas := ⟨[("UserSchema", .builder builder [])]⟩ }

/-- A module that exports all of one module, and the type and the schema of another one by name. -/
def starFirst : Program where
  modules := [{ SourceModule.empty ⟨"/src/index.ts"⟩ with
      reexports := [.all "./a", .named "User" "User" "./b",
        .named "UserSchema" "UserSchema" "./b"] },
    twoExports ⟨"/src/a.ts"⟩ "string", twoExports ⟨"/src/b.ts"⟩ "number"]
  unreadable := []

end Program

end IpcWiring
