import Mathlib.Data.List.Basic
import IpcWiring.Program.Members
import IpcWiring.Proofs.Extract.Names

/-!
# Programs that agree on some files

Two programs agree on a set of files (`Program.AgreeOn`) if they have the same modules for these
files, and the specifiers in these modules lead to the same files, again of the set. Whatever is
looked up from a file of the set is then the same in both: declared names
(`Program.AgreeOn.declaredName`), rendered types (`Program.AgreeOn.renderIn`) and the members of
types (`Program.AgreeOn.members?`). Each look-up is settled together with the fact that what it
finds is declared in the set again.
-/

namespace IpcWiring

open Script

/-! ## Dependencies of a module -/

namespace Text

/-- Dropping repeated elements drops no value. -/
theorem mem_eraseReps_loop {s a : String} : ∀ {names acc : List String},
    s ∈ List.eraseRepsBy.loop (· == ·) a names acc ↔ s = a ∨ s ∈ names ∨ s ∈ acc
  | [], acc => by simp [List.eraseRepsBy.loop, or_comm]
  | b :: names, acc => by
    rw [List.eraseRepsBy.loop]
    cases hab : a == b with
    | true =>
      obtain rfl := beq_iff_eq.1 hab
      simp only [mem_eraseReps_loop, List.mem_cons]
      tauto
    | false =>
      simp only [mem_eraseReps_loop, List.mem_cons]
      tauto

/-- Sorting names without repetition keeps just the names. -/
theorem mem_sortDistinct {s : String} {names : List String} :
    s ∈ sortDistinct names ↔ s ∈ names := by
  have hsort : s ∈ names ↔ s ∈ names.mergeSort le := List.mem_mergeSort.symm
  rw [hsort, sortDistinct, List.eraseReps]
  cases names.mergeSort le with
  | nil => rfl
  | cons a rest =>
    rw [List.eraseRepsBy, mem_eraseReps_loop]
    simp

end Text

namespace SourceModule

/-- The module that a name is imported from is a dependency. -/
theorem mem_dependencies_of_import {m : SourceModule} {name : String} {b : ImportBinding}
    (h : m.imports.find? name = some b) : b.specifier ∈ m.dependencies := by
  rw [dependencies, Text.mem_sortDistinct]
  refine List.mem_append_left _ (List.mem_map.2 ⟨b, ?_, rfl⟩)
  exact List.mem_map.2 ⟨(name, b), NameMap.mem_of_lookup h, rfl⟩

/-- The module that is exported from is a dependency. -/
theorem mem_dependencies_of_reexport {m : SourceModule} {r : ReExport} (h : r ∈ m.reexports) :
    r.specifier ∈ m.dependencies := by
  rw [dependencies, Text.mem_sortDistinct]
  exact List.mem_append_right _ (List.mem_map.2 ⟨r, h, rfl⟩)

end SourceModule

/-! ## Agreement -/

/-- What the symbol stands for is declared in a file of `S`, if it is in any. -/
def Symbol.Within (S : Path → Prop) : Symbol → Prop
  | interface file _ | typeAlias file _ => S file
  | opaqueType _ | external _ => True

namespace Program

/-- The programs have the same modules for the files of `S`, and specifiers in these lead to the
same files, again of `S`. -/
structure AgreeOn (S : Path → Prop) (p q : Program) : Prop where
  path_eq : ∀ {f m}, S f → p.module? f = some m → m.path = f
  module?_eq : ∀ {f}, S f → p.module? f = q.module? f
  targetOf_eq : ∀ {f m s}, S f → p.module? f = some m → s ∈ m.dependencies →
    p.targetOf f s = q.targetOf f s
  targetOf_mem : ∀ {f m s g}, S f → p.module? f = some m → s ∈ m.dependencies →
    p.targetOf f s = some g → S g

/-- Two look-ups find the same in the files of `S`, and what they find is within `S`. -/
def SameIn {α : Type} (S : Path → Prop) (within : α → Prop) (x y : Path → String → Option α) :
    Prop :=
  ∀ f name, S f → x f name = y f name ∧ ∀ a, x f name = some a → within a

section AgreeOn

variable {S : Path → Prop} {p q : Program} (h : AgreeOn S p q) {f : Path} (hf : S f)

include h

/-! ## Symbols -/

/-- A name of a module that a specifier leads to. -/
theorem AgreeOn.viaSpecifier {x y : Path → String → Option Symbol}
    (hxy : SameIn S (Symbol.Within S) x y) (hf : S f) {m : SourceModule}
    (hm : p.module? f = some m) {specifier : String} (hs : specifier ∈ m.dependencies)
    (name : String) : p.viaSpecifier x f specifier name = q.viaSpecifier y f specifier name ∧
      ∀ a, p.viaSpecifier x f specifier name = some a → a.Within S := by
  unfold Program.viaSpecifier
  rw [← h.targetOf_eq hf hm hs]
  cases ht : p.targetOf f specifier with
  | none =>
    refine ⟨rfl, fun a ha => ?_⟩
    cases ha
    trivial
  | some g => exact hxy g name (h.targetOf_mem hf hm hs ht)

/-- A name among re-exports. -/
theorem AgreeOn.viaReExports {x y : Path → String → Option Symbol}
    (hxy : SameIn S (Symbol.Within S) x y) (hf : S f) {m : SourceModule}
    (hm : p.module? f = some m) (name : String) : ∀ {rs : List ReExport},
      (∀ r ∈ rs, r.specifier ∈ m.dependencies) →
        p.viaReExports x f name rs = q.viaReExports y f name rs ∧
          ∀ a, p.viaReExports x f name rs = some a → a.Within S
  | [], _ => ⟨rfl, nofun⟩
  | r :: rs, hrs => by
    have hr := hrs r List.mem_cons_self
    have hrest := AgreeOn.viaReExports hxy hf hm name fun r hr =>
      hrs r (List.mem_cons_of_mem _ hr)
    cases r with
    | named as imported specifier =>
      unfold Program.viaReExports
      split
      · exact h.viaSpecifier hxy hf hm hr imported
      · exact hrest
    | wholeModule exported specifier => exact hrest
    | all specifier =>
      have hr : specifier ∈ m.dependencies := hr
      unfold Program.viaReExports
      rw [← h.targetOf_eq hf hm hr]
      cases ht : p.targetOf f specifier with
      | none => exact hrest
      | some g =>
        obtain ⟨heq, hin⟩ := hxy g name (h.targetOf_mem hf hm hr ht)
        rw [Option.bind_some, Option.bind_some, ← heq]
        cases hx : x g name with
        | none => exact hrest
        | some a =>
          refine ⟨rfl, fun b hb => ?_⟩
          cases hb
          exact hin a hx

/-- Names of files and of their exports. -/
theorem AgreeOn.resolve_steps (n : Nat) :
    SameIn S (Symbol.Within S) (p.resolveLocal n) (q.resolveLocal n) ∧
      SameIn S (Symbol.Within S) (p.resolveExport n) (q.resolveExport n) := by
  induction n with
  | zero => exact ⟨fun f name _ => ⟨rfl, nofun⟩, fun f name _ => ⟨rfl, nofun⟩⟩
  | succ n ih =>
    refine ⟨fun f name hf => ?_, fun f name hf => ?_⟩
    · rw [resolveLocal, resolveLocal, ← h.module?_eq hf]
      cases hm : p.module? f with
      | none => simp
      | some m =>
        simp only [bind, Option.bind_some]
        rw [h.path_eq hf hm]
        cases m.interfaces.find? name with
        | some i => exact ⟨rfl, fun a ha => by cases ha; exact hf⟩
        | none =>
        cases m.aliases.find? name with
        | some a => exact ⟨rfl, fun b hb => by cases hb; exact hf⟩
        | none =>
        dsimp only
        split
        · exact ⟨rfl, fun a ha => by cases ha; trivial⟩
        cases hb : m.imports.find? name with
        | none => simp
        | some b =>
        rw [Option.bind_some, Option.bind_some]
        cases importedName? b.kind with
        | none => simp
        | some imported =>
          exact h.viaSpecifier ih.2 hf hm (SourceModule.mem_dependencies_of_import hb) imported
    · rw [resolveExport, resolveExport, ← h.module?_eq hf]
      cases hm : p.module? f with
      | none => simp
      | some m =>
        simp only [bind, Option.bind_some]
        cases m.exports.find? name with
        | some inner => exact ih.1 f inner hf
        | none =>
          exact h.viaReExports ih.2 hf hm name fun r hr =>
            SourceModule.mem_dependencies_of_reexport hr

/-- Type names of files. -/
theorem AgreeOn.resolve (hf : S f) (n : Nat) (name : TypeName) :
    p.resolve n f name = q.resolve n f name ∧
      ∀ a, p.resolve n f name = some a → a.Within S := by
  obtain ⟨head, rest⟩ := name
  unfold Program.resolve
  match rest with
  | [] => exact (h.resolve_steps n).1 f head hf
  | [member] =>
    dsimp only
    rw [← h.module?_eq hf]
    cases hm : p.module? f with
    | none => simp
    | some m =>
      simp only [bind, Option.bind_some]
      cases hb : m.imports.find? head with
      | none => simp
      | some b =>
        simp only [Option.bind_some]
        split
        · simp [failure]
        · exact h.viaSpecifier (h.resolve_steps (n - 1)).2 hf hm
            (SourceModule.mem_dependencies_of_import hb) member
  | _ :: _ :: _ => exact ⟨rfl, nofun⟩

/-- Declared names behind types of files. -/
theorem AgreeOn.declaredNameWithin : ∀ (n : Nat) {f : Path}, S f → ∀ t : TypeExpr,
    p.declaredNameWithin n f t = q.declaredNameWithin n f t
  | 0, _, _, _ => rfl
  | n + 1, f, hf, t => by
    unfold Program.declaredNameWithin
    cases t.stripParens.form with
    | reference name args =>
      obtain ⟨heq, hin⟩ := h.resolve hf (n + 1) name
      dsimp only
      rw [← heq]
      cases hr : p.resolve (n + 1) f name with
      | none => rfl
      | some symbol =>
        cases symbol with
        | typeAlias path a =>
          dsimp only
          split
          · exact AgreeOn.declaredNameWithin n (hin _ hr) a.type
          · rfl
        | interface | opaqueType | external => rfl
    | _ => rfl

/-- The declared name behind a type of a file. -/
theorem AgreeOn.declaredName (hf : S f) (t : TypeExpr) : p.declaredName f t = q.declaredName f t :=
  h.declaredNameWithin maxSteps hf t

/-! ## Schemas -/

/-- A schema that a specifier leads to. -/
theorem AgreeOn.schemaVia {x y : Path → String → Option FoundSchema}
    (hxy : SameIn S (fun s => S s.file) x y) (hf : S f) {m : SourceModule}
    (hm : p.module? f = some m) {specifier : String} (hs : specifier ∈ m.dependencies)
    (name : String) :
    (p.targetOf f specifier).bind (x · name) = (q.targetOf f specifier).bind (y · name) ∧
      ∀ a, (p.targetOf f specifier).bind (x · name) = some a → S a.file := by
  rw [← h.targetOf_eq hf hm hs]
  cases ht : p.targetOf f specifier with
  | none => simp
  | some g => exact hxy g name (h.targetOf_mem hf hm hs ht)

/-- A schema among re-exports. -/
theorem AgreeOn.schemaViaReExports {x y : Path → String → Option FoundSchema}
    (hxy : SameIn S (fun s => S s.file) x y) (hf : S f) {m : SourceModule}
    (hm : p.module? f = some m) (name : String) {rs : List ReExport}
    (hrs : ∀ r ∈ rs, r.specifier ∈ m.dependencies) :
    p.schemaViaReExports x f name rs = q.schemaViaReExports y f name rs ∧
      ∀ a, p.schemaViaReExports x f name rs = some a → S a.file := by
  induction rs with
  | nil => simp [Program.schemaViaReExports]
  | cons r rs ih =>
    obtain ⟨heq, hin⟩ := ih fun r hr => hrs r (List.mem_cons_of_mem _ hr)
    have hr := hrs r List.mem_cons_self
    unfold Program.schemaViaReExports at heq hin ⊢
    rw [List.findSome?_cons, List.findSome?_cons, ← heq]
    cases r with
    | named as imported specifier =>
      obtain ⟨heq, hin'⟩ := h.schemaVia hxy hf hm hr imported
      dsimp only [ReExport.specifier] at heq hin' ⊢
      rw [← heq]
      split
      · next hsome =>
        refine ⟨rfl, fun b hb => ?_⟩
        cases hb
        split at hsome
        · exact hin' _ hsome
        · cases hsome
      · exact ⟨rfl, hin⟩
    | wholeModule exported specifier => exact ⟨rfl, hin⟩
    | all specifier =>
      obtain ⟨heq, hin'⟩ := h.schemaVia hxy hf hm hr name
      dsimp only [ReExport.specifier] at heq hin' ⊢
      rw [← heq]
      split
      · next hsome =>
        refine ⟨rfl, fun b hb => ?_⟩
        cases hb
        exact hin' _ hsome
      · exact ⟨rfl, hin⟩

/-- Schemas of files and of their exports. -/
theorem AgreeOn.schema_steps (n : Nat) :
    SameIn S (fun s => S s.file) (p.schemaLocal n) (q.schemaLocal n) ∧
      SameIn S (fun s => S s.file) (p.schemaExport n) (q.schemaExport n) := by
  induction n with
  | zero => exact ⟨fun f name _ => ⟨rfl, nofun⟩, fun f name _ => ⟨rfl, nofun⟩⟩
  | succ n ih =>
    refine ⟨fun f name hf => ?_, fun f name hf => ?_⟩
    · rw [schemaLocal, schemaLocal, ← h.module?_eq hf]
      cases hm : p.module? f with
      | none => simp
      | some m =>
        simp only [bind, Option.bind_some]
        rw [h.path_eq hf hm]
        cases m.schemas.find? name with
        | some s => exact ⟨rfl, fun a ha => by cases ha; exact hf⟩
        | none =>
        cases hb : m.imports.find? name with
        | none => simp
        | some b =>
        simp only [Option.bind_some]
        cases importedName? b.kind with
        | none => simp
        | some imported =>
          exact h.schemaVia ih.2 hf hm (SourceModule.mem_dependencies_of_import hb) imported
    · rw [schemaExport, schemaExport, ← h.module?_eq hf]
      cases hm : p.module? f with
      | none => simp
      | some m =>
        simp only [bind, Option.bind_some]
        cases m.exports.find? name with
        | some inner => exact ih.1 f inner hf
        | none =>
          exact h.schemaViaReExports ih.2 hf hm name fun r hr =>
            SourceModule.mem_dependencies_of_reexport hr

/-- Schemas of files with the constants in them replaced. -/
theorem AgreeOn.inlineSchema (n : Nat) (f : Path) (s : Schema) (hf : S f) :
    p.inlineSchema n f s = q.inlineSchema n f s := by
  revert hf
  -- One case for each equation of the three functions, in their order.
  refine Program.inlineSchema.induct p
    (fun n f s => S f → p.inlineSchema n f s = q.inlineSchema n f s)
    (fun n f args => S f → p.inlineArgs n f args = q.inlineArgs n f args)
    (fun n f entries => S f → p.inlineEntries n f entries = q.inlineEntries n f entries)
    ?_ ?_ ?_ ?_ ?_ ?_ ?_ ?_ ?_ ?_ ?_ ?_ ?_ n f s
  · intro f s _
    simp only [Program.inlineSchema]
  · intro f n name found hfound ih hf
    obtain ⟨heq, hin⟩ := (h.schema_steps maxSteps).1 f name hf
    simp only [Program.inlineSchema, ← heq, hfound]
    exact ih (hin found hfound)
  · intro f n name hnone hf
    simp only [Program.inlineSchema, ← ((h.schema_steps maxSteps).1 f name hf).1, hnone]
  · intro f n name args ih hf
    simp only [Program.inlineSchema, ih hf]
  · intro f n receiver name args ihReceiver ihArgs hf
    simp only [Program.inlineSchema, ihReceiver hf, ihArgs hf]
  · intro f n _
    simp only [Program.inlineSchema]
  · intro n f _
    simp only [Program.inlineArgs]
  · intro n f s rest ihSchema ihRest hf
    simp only [Program.inlineArgs, ihSchema hf, ihRest hf]
  · intro n f entries rest ihEntries ihRest hf
    simp only [Program.inlineArgs, ihEntries hf, ihRest hf]
  · intro n f items rest ihItems ihRest hf
    simp only [Program.inlineArgs, ihItems hf, ihRest hf]
  · intro n f arg rest hschema hobject harray ihRest hf
    cases arg with
    | schema s => exact (hschema s rfl).elim
    | object entries => exact (hobject entries rfl).elim
    | array items => exact (harray items rfl).elim
    | literal | other => simp only [Program.inlineArgs, ihRest hf]
  · intro n f _
    simp only [Program.inlineEntries]
  · intro n f key value rest ihValue ihRest hf
    simp only [Program.inlineEntries, ihValue hf, ihRest hf]

/-- The side of a schema that a helper describes. -/
theorem AgreeOn.schemaModeOf? (hf : S f) (name : TypeName) :
    p.schemaModeOf? f name = q.schemaModeOf? f name := by
  unfold Program.schemaModeOf?
  rw [h.module?_eq hf]

/-- The members of the type of a schema constant. -/
theorem AgreeOn.schemaMembers? (hf : S f) (position : Nat) (args : List TypeExpr)
    (mode : SchemaMode) :
    p.schemaMembers? f position args mode = q.schemaMembers? f position args mode := by
  have hfields : ∀ (name : TypeName) (k : List SchemaField → Option (List MemberInfo)),
      ((p.schemaLocal maxSteps f name.head).bind fun found =>
        ((p.inlineSchema maxSteps found.file found.schema).fields? mode).bind k) =
      (q.schemaLocal maxSteps f name.head).bind fun found =>
        ((q.inlineSchema maxSteps found.file found.schema).fields? mode).bind k := fun name k => by
    obtain ⟨heq, hin⟩ := (h.schema_steps maxSteps).1 f name.head hf
    rw [← heq]
    cases hfound : p.schemaLocal maxSteps f name.head with
    | none => rw [Option.bind_none, Option.bind_none]
    | some found =>
      rw [Option.bind_some, Option.bind_some, h.inlineSchema _ _ _ (hin found hfound)]
  simp only [Program.schemaMembers?, bind, hfields]

/-! ## Rendered types -/

/-- Where a type name of a file comes from. -/
theorem AgreeOn.sourceOf (hf : S f) (name : TypeName) : p.sourceOf f name = q.sourceOf f name := by
  unfold Program.sourceOf
  rw [← h.module?_eq hf]
  cases hm : p.module? f with
  | none => rfl
  | some m =>
    dsimp only
    cases hb : m.imports.find? name.head with
    | none => rfl
    | some b =>
      have ht := h.targetOf_eq hf hm (SourceModule.mem_dependencies_of_import hb)
      simp only [Program.sourceBehind, ht]

/-- A rendered type of a file. -/
theorem AgreeOn.renderIn (hf : S f) (t : TypeExpr) (scope : Scope) :
    p.renderIn f t scope = q.renderIn f t scope := by
  have hneed : p.needName f scope = q.needName f scope := by
    funext r name
    simp only [Program.needName, h.sourceOf hf]
  simp only [Program.renderIn, hneed]

/-- The import of a type name of a file. -/
theorem AgreeOn.importFor? (hf : S f) (name : String) :
    p.importFor? f name = q.importFor? f name := by
  simp only [Program.importFor?, h.sourceOf hf]

end AgreeOn

/-! ## Scopes -/

/-- The types that a scope binds are written in files of `S`, and in scopes of the same kind. -/
inductive ScopeWithin (S : Path → Prop) : Scope → Prop
  | of {bindings : List (String × Binding)} (files : ∀ x ∈ bindings, S x.2.file)
    (scopes : ∀ x ∈ bindings, ScopeWithin S x.2.scope) : ScopeWithin S (.of bindings)

variable {S : Path → Prop}

/-- The scope without type parameters binds nothing. -/
theorem scopeWithin_empty : ScopeWithin S .empty := .of nofun nofun

/-- What a name is bound to. -/
theorem ScopeWithin.of_find? {scope : Scope} (h : ScopeWithin S scope) {name : String}
    {b : Binding} (hb : scope.find? name = some b) : S b.file ∧ ScopeWithin S b.scope := by
  cases h with
  | of files scopes =>
    have hin := NameMap.mem_of_lookup hb
    exact ⟨files _ hin, scopes _ hin⟩

/-- One more name is bound. -/
theorem ScopeWithin.bind {scope : Scope} (h : ScopeWithin S scope) (name : String) {b : Binding}
    (hfile : S b.file) (hscope : ScopeWithin S b.scope) : ScopeWithin S (scope.bind name b) := by
  cases h with
  | of files scopes =>
    refine .of (fun x hx => ?_) fun x hx => ?_
    · rcases List.mem_cons.1 hx with rfl | hx
      exacts [hfile, files x hx]
    · rcases List.mem_cons.1 hx with rfl | hx
      exacts [hscope, scopes x hx]

section AgreeOn

variable {p q : Program} (h : AgreeOn S p q) {f g : Path} {scope declScope : Scope}

include h

/-- What a type parameter is bound to. -/
theorem AgreeOn.bindingOf (hf : S f) (hscope : ScopeWithin S scope) (hg : S g)
    (hdecl : ScopeWithin S declScope) (arg? : Option TypeExpr) (param : TypeParam) :
    p.bindingOf f scope g declScope arg? param = q.bindingOf f scope g declScope arg? param ∧
      S (p.bindingOf f scope g declScope arg? param).file ∧
        ScopeWithin S (p.bindingOf f scope g declScope arg? param).scope := by
  unfold Program.bindingOf
  cases arg? with
  | some arg =>
    dsimp only
    rw [h.renderIn hf]
    exact ⟨rfl, hf, hscope⟩
  | none =>
    cases param.default? with
    | some t =>
      dsimp only
      rw [h.renderIn hg]
      exact ⟨rfl, hg, hdecl⟩
    | none => exact ⟨rfl, hg, scopeWithin_empty⟩

/-- The scope of a declaration whose parameters are bound. -/
theorem AgreeOn.bindParams (hf : S f) (hscope : ScopeWithin S scope) (hg : S g)
    (hdecl : ScopeWithin S declScope) (args : List TypeExpr) (params : List TypeParam) :
    p.bindParams f scope g declScope args params = q.bindParams f scope g declScope args params ∧
      ScopeWithin S (p.bindParams f scope g declScope args params) := by
  induction params generalizing args declScope with
  | nil => exact ⟨rfl, hdecl⟩
  | cons param params ih =>
    obtain ⟨heq, hfile, hin⟩ := h.bindingOf hf hscope hg hdecl args.head? param
    unfold Program.bindParams
    rw [← heq]
    exact ih (hdecl.bind param.name hfile hin) args.tail

/-! ## Members -/

/-- A declared property of a file. -/
theorem AgreeOn.memberIn (hf : S f) (scope : Scope) : p.memberIn f scope = q.memberIn f scope := by
  funext m
  simp only [Program.memberIn, h.renderIn hf]

/-- A file declares or imports a type of a name. -/
theorem AgreeOn.shadows (hf : S f) (name : String) : p.shadows f name = q.shadows f name := by
  simp only [Program.shadows, h.module?_eq hf]

/-- The string literals of a union. -/
theorem AgreeOn.stringKeys? : ∀ (n : Nat) {f : Path} {scope : Scope}, S f → ScopeWithin S scope →
    ∀ t, p.stringKeys? n f scope t = q.stringKeys? n f scope t
  | 0, _, _, _, _, _ => rfl
  | n + 1, f, scope, hf, hscope, t => by
    have ih := AgreeOn.stringKeys? n hf hscope
    unfold Program.stringKeys?
    cases t.form with
    | paren inner => exact ih inner
    | union options => simp only [funext ih]
    | reference name args =>
      cases args with
      | cons => rfl
      | nil =>
        dsimp only
        cases hb : (if name.isSimple then scope.find? name.head else none) with
        | some b =>
          obtain ⟨hfile, hin⟩ := hscope.of_find? (Option.ite_none_right_eq_some.1 hb).2
          exact AgreeOn.stringKeys? n hfile hin b.type
        | none =>
          obtain ⟨heq, hin⟩ := h.resolve hf (n + 1) name
          dsimp only
          rw [← heq]
          cases hr : p.resolve (n + 1) f name with
          | none => rfl
          | some symbol =>
            cases symbol with
            | typeAlias path a =>
              dsimp only
              rw [AgreeOn.stringKeys? n (hin _ hr) scopeWithin_empty a.type]
            | interface | opaqueType | external => rfl
    | _ => rfl

/-- The members of a type of a file in a scope. -/
theorem AgreeOn.expand : ∀ (n : Nat) {f : Path} {scope : Scope}, S f → ScopeWithin S scope →
    ∀ t, p.expand n f scope t = q.expand n f scope t
  | 0, _, _, _, _, _ => rfl
  | n + 1, f, scope, hf, hscope, t => by
    have ih := AgreeOn.expand n hf hscope
    unfold Program.expand
    cases t.form with
    | object members isOpaque => simp only [h.memberIn hf]
    | paren inner => exact ih inner
    | intersection parts => simp only [funext ih]
    | reference name args =>
      dsimp only
      cases hb : (if name.isSimple then scope.find? name.head else none) with
      | some b =>
        obtain ⟨hfile, hin⟩ := hscope.of_find? (Option.ite_none_right_eq_some.1 hb).2
        exact AgreeOn.expand n hfile hin b.type
      | none =>
        dsimp only
        rw [← h.shadows hf, ← h.schemaModeOf? hf, funext ih, funext (h.stringKeys? n hf hscope)]
        split
        · rfl
        · cases p.schemaModeOf? f name with
          | some mode => exact h.schemaMembers? hf t.start args mode
          | none =>
            obtain ⟨heq, hin⟩ := h.resolve hf (n + 1) name
            dsimp only
            rw [← heq]
            cases hr : p.resolve (n + 1) f name with
            | none => rfl
            | some symbol =>
              cases symbol with
              | interface path i =>
                have hpath := hin _ hr
                obtain ⟨hbind, hinner⟩ :=
                  h.bindParams hf hscope hpath scopeWithin_empty args i.typeParams
                simp only [← hbind, h.memberIn hpath, funext (AgreeOn.expand n hpath hinner)]
              | typeAlias path a =>
                have hpath := hin _ hr
                obtain ⟨hbind, hinner⟩ :=
                  h.bindParams hf hscope hpath scopeWithin_empty args a.typeParams
                simp only [← hbind, AgreeOn.expand n hpath hinner]
              | opaqueType | external => rfl
    | _ => rfl

/-- The members of a type of a file. -/
theorem AgreeOn.members? (hf : S f) (t : TypeExpr) : p.members? f t = q.members? f t := by
  rw [Program.members?, Program.members?, h.expand maxSteps hf scopeWithin_empty]

end AgreeOn

end Program

end IpcWiring
