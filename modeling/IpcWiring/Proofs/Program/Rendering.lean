import IpcWiring.Program.Members
import IpcWiring.Proofs.Extract.Names
import Mathlib.Data.List.SplitBy

/-!
# Rendered types

A type is rendered with what the names that it records need (`Program.renderIn`): what a bound name
needs is taken over, an imported or exported name is imported, and a name that is declared without
being exported is noted. Types are rendered where they are written (`Program.Writes`), in scopes
that bind type parameters to types that were rendered the same way (`Program.Fills`), and so is
every member that a type expands to (`Program.renders_of_mem_expand`).
-/

namespace IpcWiring

open Script

/-! ## Lists without repetition -/

section
variable {α β : Type} [BEq α] {g : α → β} {known more : List α} {b : β}

/-- What a list has when a value was added, as far as equal values show the same. -/
theorem mem_map_addNew {a : α} (hg : ∀ x y : α, (x == y) = true → g x = g y) :
    b ∈ (addNew known a).map g ↔ b ∈ known.map g ∨ b = g a := by
  rw [addNew]
  split
  · next hold =>
    obtain ⟨c, hc, heq⟩ := List.contains_iff_exists_mem_beq.1 hold
    refine ⟨.inl, Or.rec id fun hb => ?_⟩
    rw [hb, hg a c heq]
    exact List.mem_map_of_mem hc
  · rw [List.map_append, List.mem_append, List.map_singleton, List.mem_singleton]

/-- What a list has when others were added, as far as equal values show the same. -/
theorem mem_map_appendNew (hg : ∀ x y : α, (x == y) = true → g x = g y) :
    b ∈ (appendNew known more).map g ↔ b ∈ known.map g ∨ b ∈ more.map g := by
  rw [appendNew]
  induction more generalizing known with
  | nil => simp
  | cons a more ih =>
    rw [List.foldl_cons, ih, mem_map_addNew hg, List.map_cons, List.mem_cons, or_assoc]

/-- What a list has when others were added. -/
theorem mem_appendNew {α : Type} [BEq α] [LawfulBEq α] {known more : List α} {a : α} :
    a ∈ appendNew known more ↔ a ∈ known ∨ a ∈ more := by
  have h : a ∈ (appendNew known more).map id ↔ a ∈ known.map id ∨ a ∈ more.map id :=
    mem_map_appendNew fun _ _ => beq_iff_eq.1
  simpa using h

end

/-- Imports that count as the same have one local name. -/
theorem TypeImport.localName_eq_of_beq (i j : TypeImport) (h : (i == j) = true) :
    i.localName = j.localName := by
  have hparts : (i.imported == j.imported && (i.localName == j.localName &&
      (i.source == j.source && i.wholeModule == j.wholeModule))) = true := h
  rw [Bool.and_eq_true, Bool.and_eq_true] at hparts
  exact beq_iff_eq.1 hparts.2.1

namespace Rendered

/-- The local names of the imports. -/
def localNames (r : Rendered) : List String := r.imports.map (·.localName)

/-- A rendered type needs no more than another. -/
structure Within (r s : Rendered) : Prop where
  localNames : r.localNames ⊆ s.localNames
  unexported : r.unexported ⊆ s.unexported

theorem Within.refl (r : Rendered) : r.Within r := ⟨List.Subset.refl _, List.Subset.refl _⟩

theorem Within.trans {r s t : Rendered} (h : r.Within s) (h' : s.Within t) : r.Within t :=
  ⟨List.Subset.trans h.localNames h'.localNames, List.Subset.trans h.unexported h'.unexported⟩

end Rendered

namespace Program

variable {p : Program} {file : Path} {scope : Scope} {t : TypeExpr} {name : TypeName} {r : Rendered}

/-! ## Names -/

/-- An import of a name of a file has that name as its local one. -/
theorem localName_of_sourceOf {i : TypeImport} (h : p.sourceOf file name = .imported i) :
    i.localName = name.head := by
  rw [sourceOf] at h
  cases hm : p.module? file with
  | none => rw [hm] at h; cases h
  | some m =>
    rw [hm] at h
    dsimp only at h
    cases hb : m.imports.find? name.head with
    | some b =>
      rw [hb] at h
      dsimp only at h
      cases hk : importedName? b.kind with
      | none => rw [hk] at h; cases h; rfl
      | some imported => rw [hk] at h; cases h; rfl
    | none =>
      rw [hb] at h
      dsimp only at h
      split at h
      · cases he : m.exportNameOf? name.head with
        | none => rw [he] at h; cases h
        | some exported => rw [he] at h; cases h; rfl
      · cases h

/-- A name comes from elsewhere only if its file neither imports nor declares it. -/
theorem elsewhere_of_sourceOf {m : SourceModule} (h : p.sourceOf file name = .elsewhere)
    (hm : p.module? file = some m) :
    m.imports.find? name.head = none ∧ m.declares name.head = false := by
  rw [sourceOf, hm] at h
  dsimp only at h
  cases hb : m.imports.find? name.head with
  | some b => rw [hb] at h; cases h
  | none =>
    rw [hb] at h
    dsimp only at h
    split at h
    · cases he : m.exportNameOf? name.head with
      | none => rw [he] at h; cases h
      | some exported => rw [he] at h; cases h
    · next hdeclares => exact ⟨rfl, Bool.eq_false_iff.2 hdeclares⟩

/-- What a name needs in another file. -/
def needOf (p : Program) (file : Path) (scope : Scope) (name : TypeName) : Rendered :=
  match (if name.isSimple then scope.find? name.head else none) with
  | some b => b.rendered
  | none =>
    match p.sourceOf file name with
    | .imported i => ⟨name.text, [i], []⟩
    | .unexported => ⟨name.text, [], [name.head]⟩
    | .elsewhere => .plain name.text

/-- A name brings what it needs. -/
theorem needName_eq : p.needName file scope r name =
    { r with
      imports := appendNew r.imports (p.needOf file scope name).imports
      unexported := appendNew r.unexported (p.needOf file scope name).unexported } := by
  rw [needName, needOf]
  cases (if name.isSimple then scope.find? name.head else none) with
  | some b => rfl
  | none =>
    dsimp only
    cases p.sourceOf file name <;> rfl

/-- What a name needs comes to what was needed before. -/
theorem within_needName : r.Within (p.needName file scope r name) ∧
    (p.needOf file scope name).Within (p.needName file scope r name) := by
  rw [needName_eq]
  generalize p.needOf file scope name = need
  have himports : ∀ x, x ∈ (appendNew r.imports need.imports).map (·.localName) ↔
      x ∈ r.localNames ∨ x ∈ need.localNames :=
    fun x => mem_map_appendNew TypeImport.localName_eq_of_beq
  have hunexported : ∀ x, x ∈ appendNew r.unexported need.unexported ↔
      x ∈ r.unexported ∨ x ∈ need.unexported := fun x => mem_appendNew
  exact ⟨⟨fun x h => (himports x).2 (.inl h), fun x h => (hunexported x).2 (.inl h)⟩,
    ⟨fun x h => (himports x).2 (.inr h), fun x h => (hunexported x).2 (.inr h)⟩⟩

/-- Names only add to what is needed. -/
theorem within_foldl_needName {names : List TypeName} :
    r.Within (names.foldl (p.needName file scope) r) := by
  induction names generalizing r with
  | nil => exact .refl r
  | cons name names ih => exact within_needName.1.trans ih

/-- A rendered type has what each name needs that the type records. -/
theorem needOf_within (h : name ∈ t.names) :
    (p.needOf file scope name).Within (p.renderIn file t scope) := by
  obtain ⟨before, after, hnames⟩ := List.append_of_mem h
  rw [renderIn, hnames, List.foldl_append, List.foldl_cons]
  exact within_needName.2.trans within_foldl_needName

/-! ## Types in files -/

end Program

/-- A type is a part of another one that its members may come from. -/
inductive Script.TypeExpr.PartOf : TypeExpr → TypeExpr → Prop where
  | paren {t inner : TypeExpr} (h : t.form = .paren inner) : PartOf inner t
  | intersection {t part : TypeExpr} {parts : List TypeExpr} (h : t.form = .intersection parts)
      (hpart : part ∈ parts) : PartOf part t
  | argument {t arg : TypeExpr} {name : TypeName} {args : List TypeExpr}
      (h : t.form = .reference name args) (harg : arg ∈ args) : PartOf arg t
  | property {t : TypeExpr} {members : List Member} {isOpaque : Bool} {x : Member}
      (h : t.form = .object members isOpaque) (hx : x ∈ members) : PartOf x.type t

/-- The symbol is declared in its file, if it is in any. -/
def Symbol.DeclaredIn (p : Program) : Symbol → Prop
  | interface file i => ∃ m name, p.module? file = some m ∧ m.interfaces.find? name = some i
  | typeAlias file a => ∃ m name, p.module? file = some m ∧ m.aliases.find? name = some a
  | opaqueType _ | external _ => True

namespace Program

variable {p : Program} {file : Path} {scope : Scope} {t : TypeExpr}

/-- A type is written in a file: on a parameter of a function, in an interface or alias, as the
default of a type parameter, or as a part of such a type. A missing argument counts as `unknown`,
written anywhere. -/
inductive Writes (p : Program) : Path → TypeExpr → Prop where
  | param {file : Path} {m : SourceModule} {f : FunctionDecl} {param : Param} {t : TypeExpr}
      (hm : p.module? file = some m) (hf : f ∈ m.functions) (hparam : param ∈ f.params)
      (ht : param.type? = some t) : Writes p file t
  | property {file : Path} {i : InterfaceDecl} {x : Member}
      (hi : (Symbol.interface file i).DeclaredIn p) (hx : x ∈ i.members) : Writes p file x.type
  | base {file : Path} {i : InterfaceDecl} {t : TypeExpr}
      (hi : (Symbol.interface file i).DeclaredIn p) (ht : t ∈ i.bases) : Writes p file t
  | alias {file : Path} {a : AliasDecl} (ha : (Symbol.typeAlias file a).DeclaredIn p) :
      Writes p file a.type
  | interfaceDefault {file : Path} {i : InterfaceDecl} {param : TypeParam} {t : TypeExpr}
      (hi : (Symbol.interface file i).DeclaredIn p) (hparam : param ∈ i.typeParams)
      (ht : param.default? = some t) : Writes p file t
  | aliasDefault {file : Path} {a : AliasDecl} {param : TypeParam} {t : TypeExpr}
      (ha : (Symbol.typeAlias file a).DeclaredIn p) (hparam : param ∈ a.typeParams)
      (ht : param.default? = some t) : Writes p file t
  | part {file : Path} {t part : TypeExpr} (ht : Writes p file t) (hpart : part.PartOf t) :
      Writes p file part
  | missing {file : Path} : Writes p file (.ofKeyword "unknown" 0)

/-- A scope binds type parameters to rendered types, each written in its file and scope. -/
inductive Fills (p : Program) : Scope → Prop where
  | of {bindings : List (String × Binding)}
      (types : ∀ x ∈ bindings, p.Writes x.2.file x.2.type ∧
        x.2.rendered = p.renderIn x.2.file x.2.type x.2.scope)
      (scopes : ∀ x ∈ bindings, Fills p x.2.scope) : Fills p (.of bindings)

/-- What is emitted for a type: a type of a file, rendered in a scope, the text of a property of a
schema that a name of a file leads to, or the text for a type that is not given. -/
inductive Renders (p : Program) : Rendered → Prop where
  | type {file : Path} {t : TypeExpr} {scope : Scope} (ht : p.Writes file t) (hs : p.Fills scope) :
      Renders p (p.renderIn file t scope)
  | schema {file : Path} {name : String} {found : FoundSchema} {mode : SchemaMode}
      {fields : List SchemaField} {f : SchemaField}
      (hfound : p.schemaLocal maxSteps file name = some found)
      (hfields : (p.inlineSchema maxSteps found.file found.schema).fields? mode = some fields)
      (hf : f ∈ fields) : Renders p (.plain f.shape.text)
  | untyped {text : String} (h : text = "any" ∨ text = "any[]") : Renders p (.plain text)

/-! ## Declared symbols -/

/-- A name of a module leads to what is declared, if names of modules do. -/
theorem declaredIn_of_viaSpecifier {exported : Path → String → Option Symbol}
    (h : ∀ f n s, exported f n = some s → s.DeclaredIn p) {specifier name : String} {s : Symbol}
    (hs : p.viaSpecifier exported file specifier name = some s) : s.DeclaredIn p := by
  rw [viaSpecifier] at hs
  cases htarget : p.targetOf file specifier with
  | none => rw [htarget] at hs; cases hs; trivial
  | some target => rw [htarget] at hs; exact h target name s hs

/-- A re-exported name leads to what is declared, if names of modules do. -/
theorem declaredIn_of_viaReExports {exported : Path → String → Option Symbol}
    (h : ∀ f n s, exported f n = some s → s.DeclaredIn p) {name : String} {s : Symbol} :
    ∀ {rs : List ReExport}, p.viaReExports exported file name rs = some s → s.DeclaredIn p
  | .named as imported specifier :: rs, hs => by
    rw [viaReExports] at hs
    split at hs
    · exact declaredIn_of_viaSpecifier h hs
    · exact declaredIn_of_viaReExports h hs
  | .all specifier :: rs, hs => by
    rw [viaReExports] at hs
    cases hx : (p.targetOf file specifier).bind (exported · name) with
    | none => rw [hx] at hs; exact declaredIn_of_viaReExports h hs
    | some symbol =>
      rw [hx] at hs
      cases hs
      obtain ⟨target, -, htarget⟩ := Option.bind_eq_some_iff.1 hx
      exact h target name _ htarget
  | .wholeModule _ _ :: rs, hs => by
    rw [viaReExports] at hs
    exact declaredIn_of_viaReExports h hs

/-- A module is the module of its own path. -/
theorem module?_path {m : SourceModule} (h : p.module? file = some m) :
    p.module? m.path = some m := by
  have heq := List.find?_some h
  rw [module?, ← h, module?]
  congr 1
  funext m'
  rw [Bool.eq_iff_iff, Path.beq_iff, Path.beq_iff, Path.beq_iff.1 heq]

/-- What a name leads to, in a file or among its exports, is declared where it says. -/
theorem declaredIn_steps (n : Nat) :
    (∀ f name s, p.resolveLocal n f name = some s → s.DeclaredIn p) ∧
      ∀ f name s, p.resolveExport n f name = some s → s.DeclaredIn p := by
  induction n with
  | zero => exact ⟨nofun, nofun⟩
  | succ n ih =>
    refine ⟨fun f name s hs => ?_, fun f name s hs => ?_⟩
    · rw [resolveLocal] at hs
      cases hm : p.module? f with
      | none => rw [hm] at hs; cases hs
      | some m =>
        rw [hm] at hs
        simp only [bind, Option.bind_some] at hs
        cases hi : m.interfaces.find? name with
        | some i => rw [hi] at hs; cases hs; exact ⟨m, name, module?_path hm, hi⟩
        | none =>
        rw [hi] at hs
        cases ha : m.aliases.find? name with
        | some a => rw [ha] at hs; cases hs; exact ⟨m, name, module?_path hm, ha⟩
        | none =>
        rw [ha] at hs
        dsimp only at hs
        split at hs
        · cases hs; trivial
        · obtain ⟨b, hb, hs⟩ := Option.bind_eq_some_iff.1 hs
          obtain ⟨imported, -, hs⟩ := Option.bind_eq_some_iff.1 hs
          exact declaredIn_of_viaSpecifier ih.2 hs
    · rw [resolveExport] at hs
      cases hm : p.module? f with
      | none => rw [hm] at hs; cases hs
      | some m =>
        rw [hm] at hs
        simp only [bind, Option.bind_some] at hs
        cases he : m.exports.find? name with
        | some inner => rw [he] at hs; exact ih.1 f inner s hs
        | none => rw [he] at hs; exact declaredIn_of_viaReExports ih.2 hs

/-- What a type name leads to is declared where it says. -/
theorem declaredIn_of_resolve {n : Nat} {name : TypeName} {s : Symbol}
    (h : p.resolve n file name = some s) : s.DeclaredIn p := by
  obtain ⟨head, rest⟩ := name
  unfold Program.resolve at h
  match rest with
  | [] => exact (declaredIn_steps n).1 file head s h
  | [member] =>
    obtain ⟨m, -, h⟩ := Option.bind_eq_some_iff.1 h
    obtain ⟨b, -, h⟩ := Option.bind_eq_some_iff.1 h
    simp only [bind] at h
    split at h
    · cases h
    · exact declaredIn_of_viaSpecifier (declaredIn_steps (n - 1)).2 h
  | _ :: _ :: _ => cases h

/-! ## Scopes -/

/-- The scope without type parameters is filled. -/
theorem fills_empty : p.Fills .empty := .of nofun nofun

/-- What a name is bound to is written in its file, and rendered in its scope. -/
theorem Fills.of_find? (h : p.Fills scope) {name : String} {b : Binding}
    (hb : scope.find? name = some b) : p.Writes b.file b.type ∧ p.Fills b.scope ∧
      b.rendered = p.renderIn b.file b.type b.scope := by
  cases h with
  | of types scopes =>
    have hin := NameMap.mem_of_lookup hb
    exact ⟨(types _ hin).1, scopes _ hin, (types _ hin).2⟩

/-- One more name is bound to a type that is rendered in its scope. -/
theorem Fills.bind (h : p.Fills scope) (name : String) {b : Binding}
    (htype : p.Writes b.file b.type) (hrendered : b.rendered = p.renderIn b.file b.type b.scope)
    (hscope : p.Fills b.scope) : p.Fills (scope.bind name b) := by
  cases h with
  | of types scopes =>
    refine .of (fun x hx => ?_) fun x hx => ?_
    · rcases List.mem_cons.1 hx with rfl | hx
      exacts [⟨htype, hrendered⟩, types x hx]
    · rcases List.mem_cons.1 hx with rfl | hx
      exacts [hscope, scopes x hx]

/-- The scope of a declaration, whose parameters are bound to arguments, to their defaults or to
nothing that is known. -/
theorem fills_bindParams {declFile : Path} (hscope : p.Fills scope) {params : List TypeParam}
    (hparams : ∀ param ∈ params, ∀ t, param.default? = some t → p.Writes declFile t) :
    ∀ {declScope : Scope} {args : List TypeExpr}, p.Fills declScope →
      (∀ arg ∈ args, p.Writes file arg) →
      p.Fills (p.bindParams file scope declFile declScope args params) := by
  induction params with
  | nil => exact fun hdecl _ => hdecl
  | cons param params ih =>
    intro declScope args hdecl hargs
    have hrest := fun q hq => hparams q (List.mem_cons_of_mem param hq)
    have hhere := hparams param List.mem_cons_self
    refine ih hrest ?_ fun arg harg => hargs arg (List.mem_of_mem_tail harg)
    unfold bindingOf
    cases harg : args.head? with
    | some arg => exact hdecl.bind _ (hargs arg (List.mem_of_mem_head? harg)) rfl hscope
    | none =>
      cases hdefault : param.default? with
      | some t => exact hdecl.bind _ (hhere t hdefault) rfl hdecl
      | none => exact hdecl.bind _ .missing rfl fills_empty

/-- The scope inside an interface. -/
theorem fills_interface {path : Path} {i : InterfaceDecl} {args : List TypeExpr}
    (hi : (Symbol.interface path i).DeclaredIn p) (hscope : p.Fills scope)
    (hargs : ∀ arg ∈ args, p.Writes file arg) :
    p.Fills (p.bindParams file scope path .empty args i.typeParams) :=
  fills_bindParams hscope (fun _ hparam _ => .interfaceDefault hi hparam) fills_empty hargs

/-- The scope inside an alias. -/
theorem fills_alias {path : Path} {a : AliasDecl} {args : List TypeExpr}
    (ha : (Symbol.typeAlias path a).DeclaredIn p) (hscope : p.Fills scope)
    (hargs : ∀ arg ∈ args, p.Writes file arg) :
    p.Fills (p.bindParams file scope path .empty args a.typeParams) :=
  fills_bindParams hscope (fun _ hparam _ => .aliasDefault ha hparam) fills_empty hargs

/-! ## Members -/

/-- The members of a list all are rendered. -/
def AllRendered (p : Program) (members : List MemberInfo) : Prop :=
  ∀ x ∈ members, p.Renders x.type

/-- Members of declared properties are rendered. -/
theorem allRendered_map_memberIn {members : List Member} (hscope : p.Fills scope)
    (h : ∀ x ∈ members, p.Writes file x.type) :
    p.AllRendered (members.map (p.memberIn file scope)) := by
  intro x hx
  obtain ⟨m, hm, rfl⟩ := List.mem_map.1 hx
  exact .type (h m hm) hscope

/-- Members stay rendered when others are added. -/
theorem AllRendered.addMissing {known more : List MemberInfo} (hknown : p.AllRendered known)
    (hmore : p.AllRendered more) : p.AllRendered (MemberInfo.addMissing known more) := by
  rw [MemberInfo.addMissing]
  induction more generalizing known with
  | nil => exact hknown
  | cons x more ih =>
    rw [List.foldl_cons]
    refine ih ?_ fun y hy => hmore y (List.mem_cons_of_mem x hy)
    split
    · exact hknown
    · intro y hy
      rcases List.mem_append.1 hy with hy | hy
      · exact hknown y hy
      · rw [List.mem_singleton.1 hy]
        exact hmore x List.mem_cons_self

/-- Members stay rendered when those of other types are added. -/
theorem AllRendered.foldl_addMissing {known : List MemberInfo} {lists : List (List MemberInfo)}
    (hknown : p.AllRendered known) (hlists : ∀ l ∈ lists, p.AllRendered l) :
    p.AllRendered (lists.foldl MemberInfo.addMissing known) := by
  induction lists generalizing known with
  | nil => exact hknown
  | cons l lists ih =>
    exact ih (hknown.addMissing (hlists l List.mem_cons_self))
      fun l' hl' => hlists l' (List.mem_cons_of_mem l hl')

/-- A utility type leaves the members' types. -/
theorem AllRendered.applyUtility {members result : List MemberInfo} (h : p.AllRendered members)
    {utility : String} {keys? : Option (List String)}
    (hresult : applyUtility utility members keys? = some result) : p.AllRendered result := by
  have hmap : ∀ optional, p.AllRendered (members.map ({ · with optional })) := by
    intro optional x hx
    obtain ⟨y, hy, rfl⟩ := List.mem_map.1 hx
    exact h y hy
  have hfilter : ∀ keep, p.AllRendered (members.filter keep) :=
    fun keep x hx => h x (List.mem_of_mem_filter hx)
  unfold Program.applyUtility at hresult
  split at hresult
  · cases hresult; exact hmap true
  · cases hresult; exact hmap false
  · cases hresult; exact h
  · obtain ⟨keys, -, rfl⟩ := Option.map_eq_some_iff.1 hresult; exact hfilter _
  · obtain ⟨keys, -, rfl⟩ := Option.map_eq_some_iff.1 hresult; exact hfilter _
  · cases hresult

/-- Members keep their types when they are sorted. -/
theorem AllRendered.sortRuns {members : List MemberInfo} (h : p.AllRendered members) :
    p.AllRendered (MemberInfo.sortRuns members) := by
  intro x hx
  obtain ⟨run, hrun, hx⟩ := List.mem_flatMap.1 hx
  refine h x ?_
  rw [← List.flatten_splitBy (·.origin == ·.origin) members]
  exact List.mem_flatten_of_mem hrun (List.mem_mergeSort.1 hx)

/-- The members of the type of a schema are rendered. -/
theorem allRendered_schemaMembers {position : Nat} {args : List TypeExpr} {mode : SchemaMode}
    {members : List MemberInfo} (h : p.schemaMembers? file position args mode = some members) :
    p.AllRendered members := by
  unfold schemaMembers? at h
  obtain ⟨arg, -, h⟩ := Option.bind_eq_some_iff.1 h
  split at h
  · simp only [bind] at h
    split at h
    · cases h
    · obtain ⟨found, hfound, h⟩ := Option.bind_eq_some_iff.1 h
      obtain ⟨fields, hfields, h⟩ := Option.bind_eq_some_iff.1 h
      cases h
      intro x hx
      obtain ⟨f, hf, rfl⟩ := List.mem_map.1 hx
      exact .schema hfound hfields hf
  · cases h

/-- The lists of members that parts have are each that of a part. -/
theorem exists_of_mem_mapM {parts : List TypeExpr} {expand : TypeExpr → Option (List MemberInfo)}
    {l : List MemberInfo} :
    ∀ {lists : List (List MemberInfo)}, parts.mapM expand = some lists → l ∈ lists →
      ∃ part ∈ parts, expand part = some l := by
  induction parts with
  | nil =>
    intro lists h hl
    cases h
    cases hl
  | cons part parts ih =>
    intro lists h hl
    rw [List.mapM_cons] at h
    obtain ⟨first, hfirst, h⟩ := Option.bind_eq_some_iff.1 h
    obtain ⟨rest, hrest, h⟩ := Option.bind_eq_some_iff.1 h
    cases h
    rcases List.mem_cons.1 hl with rfl | hl
    · exact ⟨part, List.mem_cons_self, hfirst⟩
    · obtain ⟨other, hother, heq⟩ := ih hrest hl
      exact ⟨other, List.mem_cons_of_mem part hother, heq⟩

/-- The members that a type of a file expands to are rendered. -/
theorem allRendered_expand : ∀ (n : Nat) {file : Path} {scope : Scope} {t : TypeExpr}
    {members : List MemberInfo}, p.Writes file t → p.Fills scope →
      p.expand n file scope t = some members → p.AllRendered members
  | 0, _, _, _, _, _, _, h => by cases h
  | n + 1, file, scope, t, members, ht, hscope, h => by
    unfold expand at h
    cases hform : t.form with
    | object members isOpaque =>
      rw [hform] at h
      dsimp only at h
      split at h
      · cases h
      · cases h
        exact allRendered_map_memberIn hscope fun x hx => ht.part (.property hform hx)
    | paren inner =>
      rw [hform] at h
      exact allRendered_expand n (ht.part (.paren hform)) hscope h
    | intersection parts =>
      rw [hform] at h
      obtain ⟨lists, hlists, h⟩ := Option.bind_eq_some_iff.1 h
      cases h
      refine AllRendered.foldl_addMissing nofun fun l hl => ?_
      obtain ⟨part, hpart, hexpand⟩ := exists_of_mem_mapM hlists hl
      exact allRendered_expand n (ht.part (.intersection hform hpart)) hscope hexpand
    | reference name args =>
      rw [hform] at h
      dsimp only at h
      have hargs : ∀ arg ∈ args, p.Writes file arg :=
        fun arg harg => ht.part (.argument hform harg)
      cases hb : (if name.isSimple then scope.find? name.head else none) with
      | some b =>
        rw [hb] at h
        obtain ⟨htype, hinner, -⟩ := hscope.of_find? (Option.ite_none_right_eq_some.1 hb).2
        exact allRendered_expand n htype hinner h
      | none =>
        rw [hb] at h
        dsimp only at h
        split at h
        · obtain ⟨target, htarget, h⟩ := Option.bind_eq_some_iff.1 h
          obtain ⟨members', hmembers, h⟩ := Option.bind_eq_some_iff.1 h
          have htarget := hargs target (List.mem_of_mem_head? htarget)
          exact (allRendered_expand n htarget hscope hmembers).applyUtility h
        · cases hmode : p.schemaModeOf? file name with
          | some mode => rw [hmode] at h; exact allRendered_schemaMembers h
          | none =>
            rw [hmode] at h
            dsimp only at h
            cases hr : p.resolve (n + 1) file name with
            | none => rw [hr] at h; cases h
            | some symbol =>
              have hdeclared := declaredIn_of_resolve hr
              rw [hr] at h
              cases symbol with
              | interface path i =>
                dsimp only at h
                split at h
                · cases h
                · cases h
                  have hinner := fills_interface hdeclared hscope hargs
                  refine AllRendered.foldl_addMissing
                    (allRendered_map_memberIn hinner fun x hx => .property hdeclared hx) ?_
                  intro l hl
                  obtain ⟨base, hbase, hexpand⟩ := List.mem_filterMap.1 hl
                  exact allRendered_expand n (.base hdeclared hbase) hinner hexpand
              | typeAlias path a =>
                exact allRendered_expand n (.alias hdeclared) (fills_alias hdeclared hscope hargs) h
              | opaqueType | external => cases h
    | _ => rw [hform] at h; cases h

/-- The members of a type of a file are rendered. -/
theorem allRendered_members {members : List MemberInfo} (ht : p.Writes file t)
    (h : p.members? file t = some members) : p.AllRendered members := by
  obtain ⟨found, hfound, rfl⟩ := Option.map_eq_some_iff.1 h
  exact (allRendered_expand maxSteps ht fills_empty hfound).sortRuns

end Program
end IpcWiring
