import Mathlib.Data.List.Forall2
import IpcWiring.Proofs.Program.Exports
import IpcWiring.Proofs.Schema.Names

/-!
# Renamed imports

Two versions of a file are spelled differently (`Renaming`) if names stand for each other one to
one and positions keep their order; the versions are the same otherwise (`Renaming.Module`), where
the names that a file declares and exports are kept and only imports have other local names. In two
programs whose files are such versions of each other (`Program.Renamed`) a name leads to the same
declarations (`Program.Renamed.resolve`). A type has the same declared name in both, unless its
chain of aliases ends at a name that leads nowhere and is spelled differently there
(`Program.Renamed.declaredName_eq_iff`).
-/

namespace IpcWiring

open Script

/-! ## Related options and lists -/

section

variable {α β γ δ : Type} {V : α → β → Prop} {W : γ → δ → Prop}

/-- Related options lead to related ones. -/
theorem rel_bind {a : Option α} {b : Option β} {f : α → Option γ} {g : β → Option δ}
    (h : Option.Rel V a b) (hfg : ∀ x y, V x y → Option.Rel W (f x) (g y)) :
    Option.Rel W (a.bind f) (b.bind g) := by
  cases h with
  | none => exact .none
  | some h => exact hfg _ _ h

/-- Related options have related images. -/
theorem rel_map {a : Option α} {b : Option β} {f : α → γ} {g : β → δ} (h : Option.Rel V a b)
    (hfg : ∀ x y, V x y → W (f x) (g y)) : Option.Rel W (a.map f) (b.map g) := by
  cases h with
  | none => exact .none
  | some h => exact .some (hfg _ _ h)

/-- The first of two options that is there. -/
theorem rel_orElse {a c : Option α} {b d : Option β} (h : Option.Rel V a b)
    (h' : Option.Rel V c d) : Option.Rel V (a <|> c) (b <|> d) := by
  cases h with
  | none => exact h'
  | some h => exact .some h

/-- Related options are there together. -/
theorem isSome_eq_of_rel {a : Option α} {b : Option β} (h : Option.Rel V a b) :
    a.isSome = b.isSome := by
  cases h <;> rfl

/-- Related lists are empty together. -/
theorem isEmpty_eq_of_forall₂ {as : List α} {bs : List β} (h : List.Forall₂ V as bs) :
    as.isEmpty = bs.isEmpty := by
  cases h <;> rfl

/-- Related lists have the same image if related elements do. -/
theorem map_eq_of_forall₂ {as : List α} {bs : List β} {f : α → γ} {g : β → γ}
    (h : List.Forall₂ V as bs) (hfg : ∀ x y, V x y → f x = g y) : as.map f = bs.map g := by
  induction h with
  | nil => rfl
  | cons hxy _ ih => rw [List.map_cons, List.map_cons, hfg _ _ hxy, ih]

/-- Related lists pass the same test if related elements do. -/
theorem any_eq_of_forall₂ {as : List α} {bs : List β} {f : α → Bool} {g : β → Bool}
    (h : List.Forall₂ V as bs) (hfg : ∀ x y, V x y → f x = g y) : as.any f = bs.any g := by
  induction h with
  | nil => rfl
  | cons hxy _ ih => rw [List.any_cons, List.any_cons, hfg _ _ hxy, ih]

/-- Related lists have the same results if related elements do. -/
theorem mapM_eq_of_forall₂ {as : List α} {bs : List β} {f : α → Option γ} {g : β → Option γ}
    (h : List.Forall₂ V as bs) (hfg : ∀ x y, V x y → f x = g y) : as.mapM f = bs.mapM g := by
  induction h with
  | nil => rw [List.mapM_nil, List.mapM_nil]
  | cons hxy _ ih => rw [List.mapM_cons, List.mapM_cons, hfg _ _ hxy, ih]

/-- Related lists have related results if related elements do. -/
theorem rel_mapM {as : List α} {bs : List β} {f : α → Option γ} {g : β → Option δ}
    (h : List.Forall₂ V as bs) (hfg : ∀ x y, V x y → Option.Rel W (f x) (g y)) :
    Option.Rel (List.Forall₂ W) (as.mapM f) (bs.mapM g) := by
  induction h with
  | nil =>
    rw [List.mapM_nil, List.mapM_nil]
    exact .some .nil
  | cons hxy _ ih =>
    rw [List.mapM_cons, List.mapM_cons]
    exact rel_bind (hfg _ _ hxy) fun _ _ hz => rel_bind ih fun _ _ hzs => .some (.cons hz hzs)

/-- An option is related to itself if its value is. -/
theorem rel_refl {V : α → α → Prop} (h : ∀ x, V x x) : ∀ a : Option α, Option.Rel V a a
  | none => .none
  | some x => .some (h x)

end

/-- The maps have related values under related names, in the same order. -/
def NameMap.Rel {α β : Type} (N : String → String → Prop) (V : α → β → Prop) (m : NameMap α)
    (m' : NameMap β) : Prop :=
  List.Forall₂ (fun e e' => N e.1 e'.1 ∧ V e.2 e'.2) m.entries m'.entries

/-- Names that are told apart in the same way have related values. -/
theorem NameMap.Rel.find? {α β : Type} {N : String → String → Prop} {V : α → β → Prop}
    {m : NameMap α} {m' : NameMap β} (h : NameMap.Rel N V m m') {x x' : String}
    (hx : ∀ {y y'}, N y y' → (x = y ↔ x' = y')) : Option.Rel V (m.find? x) (m'.find? x') := by
  have hlookup : ∀ {es : List (String × α)} {es' : List (String × β)},
      List.Forall₂ (fun e e' => N e.1 e'.1 ∧ V e.2 e'.2) es es' →
        Option.Rel V (es.lookup x) (es'.lookup x') := fun h => by
    induction h with
    | nil => exact .none
    | @cons e e' es es' he _ ih =>
      rw [List.lookup_cons, List.lookup_cons]
      by_cases hxe : x = e.1
      · rw [beq_iff_eq.2 hxe, beq_iff_eq.2 ((hx he.1).1 hxe)]
        exact .some he.2
      · rw [beq_eq_false_iff_ne.2 hxe, beq_eq_false_iff_ne.2 (mt (hx he.1).2 hxe)]
        exact ih
  exact hlookup h

/-! ## Renamings -/

/-- How two versions of a file are spelled: which names stand for each other, one to one, and which
positions, in the same order from the same start. -/
structure Renaming where
  name : String → String → Prop
  position : Nat → Nat → Prop
  position_zero : position 0 0
  name_iff : ∀ {x x' y y'}, name x x' → name y y' → (x = y ↔ x' = y')
  position_iff : ∀ {i i' j j'}, position i i' → position j j' → (i ≤ j ↔ i' ≤ j')

namespace Renaming

variable (R : Renaming)

/-- The name is kept. -/
def Keeps (x x' : String) : Prop := x = x' ∧ R.name x x

/-- All names of the list are kept. -/
def KeepsAll (ys ys' : List String) : Prop := ys = ys' ∧ ∀ y ∈ ys, R.name y y

/-- The names differ in their first segments. -/
structure Name (n n' : TypeName) : Prop where
  head : R.name n.head n'.head
  rest : n.rest = n'.rest

mutual

/-- Two versions of a form. -/
inductive Form : TypeForm → TypeForm → Prop
  | keyword (name : String) : Form (.keyword name) (.keyword name)
  | reference {n n' : TypeName} {args args' : List TypeExpr} (name : R.Name n n')
    (arguments : List.Forall₂ Expr args args') : Form (.reference n args) (.reference n' args')
  | object {ms ms' : List Script.Member} {isOpaque : Bool}
    (members : List.Forall₂ Member ms ms') : Form (.object ms isOpaque) (.object ms' isOpaque)
  | union {ts ts' : List TypeExpr} (options : List.Forall₂ Expr ts ts') :
    Form (.union ts) (.union ts')
  | intersection {ts ts' : List TypeExpr} (parts : List.Forall₂ Expr ts ts') :
    Form (.intersection ts) (.intersection ts')
  | paren {t t' : TypeExpr} (inner : Expr t t') : Form (.paren t) (.paren t')
  | function {ps ps' : List Script.Param} {t t' : TypeExpr} (params : List.Forall₂ Param ps ps')
    (result : Expr t t') : Form (.function ps t) (.function ps' t')
  | query {n n' : TypeName} (name : R.Name n n') : Form (.query n) (.query n')
  | literal (value : String) : Form (.literal value) (.literal value)
  | other : Form .other .other

/-- Two versions of a type expression, whatever their texts. -/
inductive Expr : TypeExpr → TypeExpr → Prop
  | of {f f' : TypeForm} {s s' : String} {i i' : Nat} {ns ns' : List TypeName}
    (form : Form f f') (start : R.position i i') (names : List.Forall₂ R.Name ns ns') :
    Expr ⟨f, s, i, ns⟩ ⟨f', s', i', ns'⟩

/-- Two versions of a property. -/
inductive Member : Script.Member → Script.Member → Prop
  | of {name : String} {optional : Bool} {t t' : TypeExpr} {i i' : Nat} (type : Expr t t')
    (start : R.position i i') : Member ⟨name, optional, t, i⟩ ⟨name, optional, t', i'⟩

/-- Two versions of a parameter. -/
inductive Param : Script.Param → Script.Param → Prop
  | of {pattern : Pattern} {t t' : Option TypeExpr} {optional : Bool}
    (type : Option.Rel Expr t t') : Param ⟨pattern, t, optional⟩ ⟨pattern, t', optional⟩

end

/-- Two versions of a type parameter. -/
structure TypeParam (t t' : Script.TypeParam) : Prop where
  name : R.name t.name t'.name
  default? : Option.Rel R.Expr t.default? t'.default?

/-- Two versions of an interface. -/
structure Interface (i i' : InterfaceDecl) : Prop where
  name : i.name = i'.name
  typeParams : List.Forall₂ R.TypeParam i.typeParams i'.typeParams
  members : List.Forall₂ R.Member i.members i'.members
  bases : List.Forall₂ R.Expr i.bases i'.bases
  isOpaque : i.isOpaque = i'.isOpaque

/-- Two versions of a type alias. -/
structure Alias (a a' : AliasDecl) : Prop where
  name : a.name = a'.name
  typeParams : List.Forall₂ R.TypeParam a.typeParams a'.typeParams
  type : R.Expr a.type a'.type

/-- Two versions of a function. -/
structure Function (f f' : FunctionDecl) : Prop where
  name : R.Keeps f.name f'.name
  params : List.Forall₂ R.Param f.params f'.params

/-- Two versions of a file: what it declares and exports keeps its name, and only imports have other
local names. -/
structure Module (m m' : SourceModule) : Prop where
  path : m.path = m'.path
  imports : NameMap.Rel R.name Eq m.imports m'.imports
  exports : NameMap.Rel Eq R.name m.exports m'.exports
  reexports : m.reexports = m'.reexports
  functions : List.Forall₂ R.Function m.functions m'.functions
  defaultFunctions : m.defaultFunctions = m'.defaultFunctions
  interfaces : NameMap.Rel R.Keeps R.Interface m.interfaces m'.interfaces
  aliases : NameMap.Rel R.Keeps R.Alias m.aliases m'.aliases
  opaqueTypes : R.KeepsAll m.opaqueTypes m'.opaqueTypes
  values : R.KeepsAll m.values m'.values
  schemas : NameMap.Rel R.Keeps (Schema.Like R.name) m.schemas m'.schemas
  imported : ∀ {x x'}, R.name x x' → m.imports.find? x = none → x = x'

/-! ## Types -/

variable {R} {x x' : String}

/-- The forms of two versions of a type. -/
theorem Expr.form {t t' : TypeExpr} (h : R.Expr t t') : R.Form t.form t'.form := by
  cases h with
  | of form => exact form

/-- Two versions of a type have their outer parentheses taken off together. -/
theorem Expr.stripParens {t t' : TypeExpr} (h : R.Expr t t') :
    R.Expr t.stripParens t'.stripParens := by
  induction t using TypeExpr.stripParens.induct generalizing t' with
  | case1 inner _ _ _ ih =>
    cases h with
    | of form => cases form with
      | paren hinner =>
        rw [TypeExpr.stripParens, TypeExpr.stripParens]
        exact ih hinner
  | case2 t hnot =>
    have hsame : ∀ {t : TypeExpr}, (∀ inner s i ns, t ≠ ⟨.paren inner, s, i, ns⟩) →
        t.stripParens = t := fun {t} hnot => by
      unfold TypeExpr.stripParens
      split
      · exact absurd rfl (hnot _ _ _ _)
      · rfl
    rw [hsame hnot, hsame ?_]
    · exact h
    · rintro inner s i ns rfl
      cases h with
      | of form => cases form with
        | paren => exact hnot _ _ _ _ rfl

/-- A name without arguments has one in the other version. -/
theorem Expr.isPlainReference_eq {t t' : TypeExpr} (h : R.Expr t t') :
    Program.isPlainReference t = Program.isPlainReference t' := by
  unfold Program.isPlainReference
  have hform := h.stripParens.form
  generalize t.stripParens.form = f, t'.stripParens.form = f' at hform
  cases hform with
  | reference name arguments => cases arguments <;> rfl
  | _ => rfl

/-- Names of several segments end in the same one. -/
theorem Name.last_eq {n n' : TypeName} (h : R.Name n n') (hrest : n.rest ≠ []) :
    n.last = n'.last := by
  have hlast : ∀ {n : TypeName}, n.rest ≠ [] → n.last = n.rest.getLastD "" := fun {n} hrest => by
    obtain ⟨head, rest⟩ := n
    cases rest with
    | nil => exact absurd rfl hrest
    | cons segment rest => simp [TypeName.last, List.getLast?_cons]
  rw [hlast hrest, hlast (h.rest ▸ hrest), h.rest]

/-! ## What is found in a file -/

/-- A name that is kept is told apart from others in the same way. -/
theorem Keeps.iff {y y' : String} (hx : R.name x x') (hy : R.Keeps y y') : x = y ↔ x' = y' := by
  obtain ⟨rfl, hy⟩ := hy
  exact R.name_iff hx hy

/-- A list of kept names has two names or neither. -/
theorem KeepsAll.contains_eq {ys ys' : List String} (h : R.KeepsAll ys ys') (hx : R.name x x') :
    ys.contains x = ys'.contains x' := by
  obtain ⟨rfl, hkept⟩ := h
  rw [Bool.eq_iff_iff, List.contains_iff_mem, List.contains_iff_mem]
  constructor
  · intro hin
    rw [← (R.name_iff (hkept x hin) hx).1 rfl]
    exact hin
  · intro hin
    rw [(R.name_iff hx (hkept x' hin)).2 rfl]
    exact hin

/-- A name that is in a list of kept ones is spelled the same. -/
theorem KeepsAll.eq_of_contains {ys ys' : List String} (h : R.KeepsAll ys ys') (hx : R.name x x')
    (hin : ys.contains x = true) : x = x' :=
  (R.name_iff (h.2 x (List.contains_iff_mem.1 hin)) hx).1 rfl

namespace Module

variable {m m' : SourceModule} (h : R.Module m m') (hx : R.name x x')

include h hx

/-- A name is imported in both versions, or in neither. -/
theorem find?_imports : m.imports.find? x = m'.imports.find? x' := by
  have hrel := h.imports.find? fun hy => R.name_iff hx hy
  generalize m.imports.find? x = b?, m'.imports.find? x' = b'? at hrel
  cases hrel with
  | none => rfl
  | some heq => rw [heq]

/-- An interface of a name. -/
theorem find?_interfaces :
    Option.Rel R.Interface (m.interfaces.find? x) (m'.interfaces.find? x') :=
  h.interfaces.find? fun hy => hy.iff hx

/-- A type alias of a name. -/
theorem find?_aliases : Option.Rel R.Alias (m.aliases.find? x) (m'.aliases.find? x') :=
  h.aliases.find? fun hy => hy.iff hx

/-- A schema of a name. -/
theorem find?_schemas : Option.Rel (Schema.Like R.name) (m.schemas.find? x) (m'.schemas.find? x') :=
  h.schemas.find? fun hy => hy.iff hx

/-- A name that is no import is spelled the same. -/
theorem eq_of_find?_imports (hnone : m.imports.find? x = none) : x = x' := h.imported hx hnone

/-- A type is declared in both versions, or in neither. -/
theorem declaresType_eq : m.declaresType x = m'.declaresType x' := by
  simp only [SourceModule.declaresType, NameMap.contains,
    isSome_eq_of_rel (h.find?_interfaces hx), isSome_eq_of_rel (h.find?_aliases hx),
    h.opaqueTypes.contains_eq hx]

/-- A name is declared in both versions, or in neither. -/
theorem declares_eq : m.declares x = m'.declares x' := by
  rw [SourceModule.declares, SourceModule.declares, h.declaresType_eq hx,
    h.values.contains_eq hx]

omit hx

/-- What is behind an exported name. -/
theorem find?_exports (name : String) :
    Option.Rel R.name (m.exports.find? name) (m'.exports.find? name) :=
  h.exports.find? fun hy => by rw [hy]

/-- A name is behind an exported one in both versions, or in neither. -/
theorem exports_beq_eq (hx : R.name x x') (name : String) :
    (m.exports.find? name == some x) = (m'.exports.find? name == some x') := by
  have hrel := h.find?_exports name
  generalize m.exports.find? name = y?, m'.exports.find? name = y'? at hrel
  cases hrel with
  | none => rfl
  | some hy => exact Bool.eq_iff_iff.2 (by simpa using R.name_iff hy hx)

end Module

end Renaming

/-! ## Programs -/

/-- The files of one program are versions of those of the other one, each by a renaming of its own.
-/
structure Program.Renamed (R : Path → Renaming) (p p' : Program) : Prop where
  congr : ∀ {f g : Path}, (f == g) = true → R f = R g
  module? : ∀ file, Option.Rel (R file).Module (p.module? file) (p'.module? file)
  unloaded : ∀ {file x x'}, p.module? file = none → (R file).name x x' → x = x'

/-- Two versions of what a type name leads to. -/
inductive Symbol.Renamed (R : Path → Renaming) : Symbol → Symbol → Prop
  | interface {file : Path} {i i' : InterfaceDecl} (decl : (R file).Interface i i') :
    Renamed R (.interface file i) (.interface file i')
  | typeAlias {file : Path} {a a' : AliasDecl} (decl : (R file).Alias a a') :
    Renamed R (.typeAlias file a) (.typeAlias file a')
  | opaqueType (name : String) : Renamed R (.opaqueType name) (.opaqueType name)
  | external (name : String) : Renamed R (.external name) (.external name)

/-- Two versions of a symbol have the same name. -/
theorem Symbol.Renamed.name_eq {R : Path → Renaming} {s s' : Symbol} (h : Symbol.Renamed R s s') :
    s.name = s'.name := by
  cases h with
  | interface decl => exact decl.name
  | typeAlias decl => exact decl.name
  | opaqueType | external => rfl

/-- Two versions of a schema that was found. -/
structure FoundSchema.Renamed (R : Path → Renaming) (s s' : FoundSchema) : Prop where
  file : s.file = s'.file
  schema : Schema.Like (R s.file).name s.schema s'.schema

/-- Related routes give the same in order. -/
theorem Routes.inOrder_rel {α : Type} {V : α → α → Prop} {w w' : Routes α} {name : String}
    (halong : ∀ r, Option.Rel V (w.along name r) (w'.along name r)) (settles : Bool)
    (rs : List ReExport) :
    Option.Rel V (w.inOrder settles name rs) (w'.inOrder settles name rs) := by
  induction rs with
  | nil => exact .none
  | cons r rest ih =>
    have hr := halong r
    rw [inOrder, inOrder]
    generalize w.along name r = a, w'.along name r = a' at hr
    cases hr with
    | some h => exact .some h
    | none =>
      dsimp only
      split
      exacts [.none, ih]

namespace Program

variable (p : Program)

/-- The name at which a chain of plain aliases ends within a number of steps without leading
anywhere, with the file that writes it. -/
def danglingWithin : Nat → Path → TypeExpr → Option (Path × TypeName)
  | 0, _, _ => none
  | n + 1, file, t =>
    match t.stripParens.form with
    | .reference name args =>
      match p.resolve (n + 1) file name with
      | some (.typeAlias path a) =>
        if args.isEmpty && a.typeParams.isEmpty && isPlainReference a.type then
          danglingWithin n path a.type
        else none
      | some _ => none
      | none => some (file, name)
    | _ => none

/-- The name at which the chain of plain aliases behind a type ends without leading anywhere, with
the file that writes it. -/
def dangling (file : Path) (t : TypeExpr) : Option (Path × TypeName) :=
  p.danglingWithin maxSteps file t

/-- The chain of plain aliases behind a type ends at a name that leads nowhere and is spelled
differently in the other version of its file. -/
def EndsRespelled (R : Path → Renaming) (file : Path) (t : TypeExpr) : Prop :=
  ∃ g x x', p.dangling file t = some (g, .simple x) ∧ (R g).name x x' ∧ x ≠ x'

/-- The declared name of a type whose chain ends without leading anywhere is written at its end. -/
theorem declaredNameWithin_of_dangling {n : Nat} {file : Path} {t : TypeExpr}
    {written : Path × TypeName} (h : p.danglingWithin n file t = some written) :
    p.declaredNameWithin n file t = some written.2.last := by
  induction n generalizing file t with
  | zero => cases h
  | succ n ih =>
    rw [danglingWithin] at h
    rw [declaredNameWithin]
    cases hform : t.stripParens.form with
    | reference name args =>
      rw [hform] at h
      dsimp only at h ⊢
      cases hr : p.resolve (n + 1) file name with
      | none =>
        rw [hr] at h
        cases h
        rfl
      | some symbol =>
        rw [hr] at h
        cases symbol with
        | typeAlias path a =>
          dsimp only at h ⊢
          split at h
          · next hplain =>
            rw [if_pos hplain]
            exact ih h
          · cases h
        | interface | opaqueType | external => cases h
    | _ => rw [hform] at h; cases h

/-- The name at which a chain of plain aliases ends without leading anywhere was looked up with the
steps that were left. -/
theorem exists_steps_of_dangling {n : Nat} {file g : Path} {t : TypeExpr} {name : TypeName}
    (h : p.danglingWithin n file t = some (g, name)) :
    ∃ k < n, p.resolve (k + 1) g name = none := by
  induction n generalizing file t with
  | zero => cases h
  | succ n ih =>
    rw [danglingWithin] at h
    cases hform : t.stripParens.form with
    | reference written args =>
      rw [hform] at h
      dsimp only at h
      cases hr : p.resolve (n + 1) file written with
      | none =>
        rw [hr] at h
        cases h
        exact ⟨n, Nat.lt_succ_self n, hr⟩
      | some symbol =>
        rw [hr] at h
        cases symbol with
        | typeAlias path a =>
          dsimp only at h
          split at h
          · obtain ⟨k, hk, hnone⟩ := ih h
            exact ⟨k, Nat.lt_succ_of_lt hk, hnone⟩
          · cases h
        | interface | opaqueType | external => cases h
    | _ => rw [hform] at h; cases h

/-- The module of a named or default import that leads nowhere was loaded and has no such export
within the steps that are left. -/
theorem exists_target_of_resolveLocal {n : Nat} {file : Path} {m : SourceModule} {x : String}
    {binding : ImportBinding} (hm : p.module? file = some m)
    (hb : m.imports.find? x = some binding) {imported : String}
    (hkind : importedName? binding.kind = some imported)
    (hnone : p.resolveLocal (n + 1) file x = none) :
    ∃ target, p.targetOf file binding.specifier = some target ∧
      p.resolveExport n target imported = none := by
  rw [(p.resolve_eq (n + 1)).1, Lookup.inFile, hm] at hnone
  simp only [bind, Option.bind_some] at hnone
  cases hdeclared : Lookup.types.declared m x with
  | some symbol => rw [hdeclared] at hnone; cases hnone
  | none =>
    rw [hdeclared, hb] at hnone
    dsimp only at hnone
    simp only [Option.bind_some, hkind, Lookup.via] at hnone
    cases htarget : p.targetOf file binding.specifier with
    | none => rw [htarget] at hnone; cases hnone
    | some target =>
      rw [htarget] at hnone
      exact ⟨target, rfl, by rw [(p.resolve_eq n).2]; exact hnone⟩

namespace Renamed

variable {R : Path → Renaming} {p p' : Program} (h : p.Renamed R p')

include h

/-- A file is loaded in both programs, or in neither. -/
theorem targetOf_eq : p.targetOf = p'.targetOf := by
  have hloaded : p.isLoaded = p'.isLoaded := funext fun file => by
    rw [Disk.isLoaded_eq_isSome, Disk.isLoaded_eq_isSome, isSome_eq_of_rel (h.module? file)]
  unfold targetOf
  rw [hloaded]

/-- A file has two versions of a module, whose path has the same renaming, or none. -/
theorem module?_cases (file : Path) :
    (p.module? file = none ∧ p'.module? file = none) ∨ ∃ m m', p.module? file = some m ∧
      p'.module? file = some m' ∧ (R m.path).Module m m' ∧ R m.path = R file := by
  have hfile := h.module? file
  cases hm : p.module? file with
  | none =>
    rw [hm] at hfile
    cases hm' : p'.module? file with
    | none => exact .inl ⟨rfl, rfl⟩
    | some m' => rw [hm'] at hfile; cases hfile
  | some m =>
    have hfound := List.find?_some (p := fun m : SourceModule => m.path == file) hm
    have hpath := h.congr hfound
    rw [hm] at hfile
    cases hm' : p'.module? file with
    | none => rw [hm'] at hfile; cases hfile
    | some m' =>
      rw [hm'] at hfile
      cases hfile with
      | some hmodule => exact .inr ⟨m, m', rfl, rfl, hpath.symm ▸ hmodule, hpath⟩

/-- What is looked up is the same in both programs, if what modules declare is. -/
theorem lookup_steps {α : Type} (k : Lookup α) {V : α → α → Prop}
    (hdeclared : ∀ {m m' x x'}, (R m.path).Module m m' → (R m.path).name x x' →
      Option.Rel V (k.declared m x) (k.declared m' x'))
    (hexternal : ∀ x, Option.Rel V (k.external x) (k.external x)) (settles : Bool) (n : Nat) :
    (∀ {file x x'}, (R file).name x x' → Option.Rel V
      (k.inFile p (fun w => w.inOrder settles) n file x)
      (k.inFile p' (fun w => w.inOrder settles) n file x')) ∧
    ∀ file x, Option.Rel V (k.amongExports p (fun w => w.inOrder settles) n file x)
      (k.amongExports p' (fun w => w.inOrder settles) n file x) := by
  induction n with
  | zero => exact ⟨fun _ => .none, fun _ _ => .none⟩
  | succ n ih =>
    have hvia : ∀ file specifier x, Option.Rel V
        (k.via p (k.amongExports p (fun w => w.inOrder settles) n) file specifier x)
        (k.via p' (k.amongExports p' (fun w => w.inOrder settles) n) file specifier x) := by
      intro file specifier x
      unfold Lookup.via
      rw [← h.targetOf_eq]
      cases p.targetOf file specifier with
      | none => exact hexternal x
      | some target => exact ih.2 target x
    refine ⟨fun {file x x'} hx => ?_, fun file x => ?_⟩
    · rw [Lookup.inFile, Lookup.inFile]
      rcases h.module?_cases file with ⟨hm, hm'⟩ | ⟨m, m', hm, hm', hmodule, hpath⟩
      · rw [hm, hm']
        exact .none
      rw [hm, hm']
      simp only [bind, Option.bind_some]
      rw [← hpath] at hx
      have hrel := hdeclared hmodule hx
      generalize k.declared m x = a, k.declared m' x' = a' at hrel
      cases hrel with
      | some hrel => exact .some hrel
      | none =>
        rw [← hmodule.find?_imports hx]
        dsimp only
        cases m.imports.find? x with
        | none => exact .none
        | some binding =>
          simp only [Option.bind_some]
          cases importedName? binding.kind with
          | none => exact .none
          | some imported => exact hvia file binding.specifier imported
    · rw [Lookup.amongExports, Lookup.amongExports]
      rcases h.module?_cases file with ⟨hm, hm'⟩ | ⟨m, m', hm, hm', hmodule, hpath⟩
      · rw [hm, hm']
        exact .none
      rw [hm, hm']
      simp only [bind, Option.bind_some]
      have hrel := hmodule.find?_exports x
      generalize m.exports.find? x = inner, m'.exports.find? x = inner' at hrel
      cases hrel with
      | some hx => exact ih.1 (hpath ▸ hx)
      | none =>
        rw [← hmodule.reexports]
        refine Routes.inOrder_rel (fun r => ?_) settles m.reexports
        cases r with
        | named exported imported specifier =>
          simp only [Routes.along, Lookup.routes]
          split
          exacts [hvia file specifier imported, .none]
        | wholeModule => exact .none
        | all specifier =>
          simp only [Routes.along, Lookup.routes, ← h.targetOf_eq]
          cases p.targetOf file specifier with
          | none => exact .none
          | some target => exact ih.2 target x

/-- Names lead to two versions of the same types. -/
theorem resolve_steps (n : Nat) :
    (∀ {file x x'}, (R file).name x x' →
      Option.Rel (Symbol.Renamed R) (p.resolveLocal n file x) (p'.resolveLocal n file x')) ∧
    ∀ file x,
      Option.Rel (Symbol.Renamed R) (p.resolveExport n file x) (p'.resolveExport n file x) := by
  rw [(p.resolve_eq n).1, (p.resolve_eq n).2, (p'.resolve_eq n).1, (p'.resolve_eq n).2]
  refine h.lookup_steps Lookup.types (fun {m m' x x'} hmodule hx => ?_)
    (fun x => .some (.external x)) true n
  have hopaque : Option.Rel (Symbol.Renamed R)
      (if m.opaqueTypes.contains x then some (.opaqueType x) else none)
      (if m'.opaqueTypes.contains x' then some (.opaqueType x') else none) := by
    rw [← hmodule.opaqueTypes.contains_eq hx]
    split
    · next hin =>
      rw [hmodule.opaqueTypes.eq_of_contains hx hin]
      exact .some (.opaqueType x')
    · exact .none
  have hpath := hmodule.path
  refine rel_orElse (rel_map (hmodule.find?_interfaces hx) fun i i' hi => ?_)
    (rel_orElse (rel_map (hmodule.find?_aliases hx) fun a a' ha => ?_) hopaque)
  · rw [← hpath]
    exact .interface hi
  · rw [← hpath]
    exact .typeAlias ha

/-- Names lead to two versions of the same schemas. -/
theorem schema_steps (n : Nat) :
    (∀ {file x x'}, (R file).name x x' →
      Option.Rel (FoundSchema.Renamed R) (p.schemaLocal n file x) (p'.schemaLocal n file x')) ∧
    ∀ file x,
      Option.Rel (FoundSchema.Renamed R) (p.schemaExport n file x) (p'.schemaExport n file x) := by
  rw [(p.schema_eq n).1, (p.schema_eq n).2, (p'.schema_eq n).1, (p'.schema_eq n).2]
  refine h.lookup_steps Lookup.schemas (fun {m m' x x'} hmodule hx => ?_) (fun _ => .none) false n
  exact rel_map (hmodule.find?_schemas hx) fun s s' hs => ⟨hmodule.path, hs⟩

/-- Type names lead to two versions of the same types. -/
theorem resolve (n : Nat) {file : Path} {name name' : TypeName} (hname : (R file).Name name name') :
    Option.Rel (Symbol.Renamed R) (p.resolve n file name) (p'.resolve n file name') := by
  obtain ⟨head, rest⟩ := name
  obtain ⟨head', rest'⟩ := name'
  obtain ⟨hhead, hrest⟩ := hname
  obtain rfl : rest = rest' := hrest
  match rest with
  | [] => exact (h.resolve_steps n).1 hhead
  | _ :: _ :: _ => exact .none
  | [member] =>
    unfold Program.resolve
    dsimp only
    rcases h.module?_cases file with ⟨hm, hm'⟩ | ⟨m, m', hm, hm', hmodule, hpath⟩
    · rw [hm, hm']
      exact .none
    rw [hm, hm']
    simp only [bind, Option.bind_some]
    rw [← hmodule.find?_imports (hpath.symm ▸ hhead)]
    refine rel_bind (V := Eq) (rel_refl (fun _ => rfl) _) fun binding _ hbinding => ?_
    subst hbinding
    split
    · exact .none
    · simp only [viaSpecifier, ← h.targetOf_eq]
      cases p.targetOf file binding.specifier with
      | none => exact .some (.external member)
      | some target => exact (h.resolve_steps (n - 1)).2 target member

/-! ## Declared names -/

/-- The chains of plain aliases behind two versions of a type both end without leading anywhere, at
two versions of a name, or they have the same declared name. -/
theorem dangling_steps (n : Nat) {file : Path} {t t' : TypeExpr} (ht : (R file).Expr t t') :
    Option.Rel (fun w w' => w.1 = w'.1 ∧ (R w.1).Name w.2 w'.2) (p.danglingWithin n file t)
      (p'.danglingWithin n file t') ∧
    (p.danglingWithin n file t = none →
      p.declaredNameWithin n file t = p'.declaredNameWithin n file t') := by
  induction n generalizing file t t' with
  | zero => exact ⟨.none, fun _ => rfl⟩
  | succ n ih =>
    unfold danglingWithin declaredNameWithin
    have hform := ht.stripParens.form
    generalize t.stripParens.form = f, t'.stripParens.form = f' at hform
    cases hform with
    | @reference name name' args args' hname hargs =>
      dsimp only
      have hsymbol := h.resolve (n + 1) hname
      generalize p.resolve (n + 1) file name = s, p'.resolve (n + 1) file name' = s' at hsymbol
      cases hsymbol with
      | none => exact ⟨.some ⟨rfl, hname⟩, nofun⟩
      | some hsymbol =>
        cases hsymbol with
        | @typeAlias path a a' decl =>
          dsimp only
          rw [isEmpty_eq_of_forall₂ hargs, isEmpty_eq_of_forall₂ decl.typeParams,
            decl.type.isPlainReference_eq, decl.name]
          split
          exacts [ih decl.type, ⟨.none, fun _ => rfl⟩]
        | interface decl => exact ⟨.none, fun _ => congrArg some decl.name⟩
        | opaqueType | external => exact ⟨.none, fun _ => rfl⟩
    | _ => exact ⟨.none, fun _ => rfl⟩

/-- The declared names of two versions of a type are the same unless its chain of plain aliases ends
at a name that leads nowhere and is spelled differently. -/
theorem declaredName_eq_iff {file : Path} {t t' : TypeExpr} (ht : (R file).Expr t t') :
    p.declaredName file t = p'.declaredName file t' ↔ ¬ p.EndsRespelled R file t := by
  obtain ⟨hdangling, hsame⟩ := h.dangling_steps maxSteps ht
  unfold declaredName EndsRespelled dangling
  cases hw : p.danglingWithin maxSteps file t with
  | none => exact iff_of_true (hsame hw) nofun
  | some w =>
    rw [hw] at hdangling
    cases hw' : p'.danglingWithin maxSteps file t' with
    | none => rw [hw'] at hdangling; cases hdangling
    | some w' =>
      rw [hw'] at hdangling
      cases hdangling with
      | some hwritten =>
        rw [p.declaredNameWithin_of_dangling hw, p'.declaredNameWithin_of_dangling hw']
        obtain ⟨g, head, rest⟩ := w
        obtain ⟨g', head', rest'⟩ := w'
        obtain ⟨-, hname⟩ := hwritten
        obtain rfl : rest = rest' := hname.rest
        cases rest with
        | nil =>
          constructor
          · rintro heq ⟨_, x, x', ⟨⟩, hx, hne⟩
            exact hne ((Option.some.inj heq).trans (((R g).name_iff hname.head hx).1 rfl))
          · intro hkept
            by_contra hne
            exact hkept ⟨g, head, head', rfl, hname.head, fun heq => hne (congrArg some heq)⟩
        | cons segment rest =>
          exact iff_of_true (congrArg some (hname.last_eq nofun)) nofun

/-- The name at which a respelled chain ends is an import. If it is not that of a whole module, then
its module was loaded and has no such export within the steps that were left. -/
theorem exists_import_of_endsRespelled {file : Path} {t : TypeExpr}
    (hends : p.EndsRespelled R file t) :
    ∃ g m x binding, p.dangling file t = some (g, .simple x) ∧ p.module? g = some m ∧
      m.imports.find? x = some binding ∧ ∀ imported, importedName? binding.kind = some imported →
        ∃ target, p.targetOf g binding.specifier = some target ∧
          ∃ n < maxSteps, p.resolveExport n target imported = none := by
  obtain ⟨g, x, x', hdangling, hx, hne⟩ := hends
  rcases h.module?_cases g with ⟨hm, -⟩ | ⟨m, m', hm, -, hmodule, hpath⟩
  · exact absurd (h.unloaded hm hx) hne
  cases hb : m.imports.find? x with
  | none => exact absurd (hmodule.eq_of_find?_imports (hpath.symm ▸ hx) hb) hne
  | some binding =>
    obtain ⟨n, hn, hnone⟩ := p.exists_steps_of_dangling hdangling
    refine ⟨g, m, x, binding, hdangling, hm, hb, fun imported hkind => ?_⟩
    obtain ⟨target, htarget, hexport⟩ := p.exists_target_of_resolveLocal hm hb hkind hnone
    exact ⟨target, htarget, n, hn, hexport⟩

end Renamed

end Program

end IpcWiring
