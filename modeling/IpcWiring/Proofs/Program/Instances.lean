import IpcWiring.Proofs.Program.Bounds
import IpcWiring.Proofs.Program.RenamedMembers

/-!
# Instances of generic declarations

A type is expanded in a scope that binds type parameters to arguments, each with the file and scope
in which it was written. The other way is to put the arguments in the place of the parameters first
(`groundType`): what is left has no parameters, and every name in it carries its file. Both ways
give the same members (`Program.members_eq_instance`), with two exceptions. The argument of a helper
of the schema library is read as it is written, so a parameter in its place is overlooked; so is a
parameter with type arguments where the keys of a utility type are read (`Program.Overlooks`).
-/

namespace IpcWiring

open Script

/-! ## Types without parameters -/

/-- The property without its type. -/
def MemberInfo.outline (m : MemberInfo) : MemberInfo := { m with type := .plain "" }

/-- A type in which parameters are replaced, so that its names belong to different files; of
properties only the outlines are kept. -/
inductive GroundType where
  | object (members : List MemberInfo) (isOpaque : Bool)
  | paren (inner : GroundType)
  | union (options : List GroundType)
  | intersection (parts : List GroundType)
  | literal (value : String)
  | query (file : Path) (name : TypeName)
  | reference (file : Path) (start : Nat) (name : TypeName) (args : List GroundType)
  | other

/-- The type without outer parentheses. -/
def GroundType.stripParens : GroundType → GroundType
  | .paren inner => inner.stripParens
  | t => t

/-- Type parameters with what they are replaced by, the latest one first. -/
abbrev Replacements := List (String × GroundType)

/-- The outline of a declared property. -/
def outlineIn (file : Path) (m : Member) : MemberInfo :=
  ⟨m.name, m.optional, .plain "", file, m.start⟩

mutual

/-- A type of a file with its parameters replaced. -/
def groundType (file : Path) (replaced : Replacements) : TypeExpr → GroundType
  | ⟨form, _, start, _⟩ => groundForm file replaced start form

/-- A type that starts at an offset of a file with its parameters replaced. -/
def groundForm (file : Path) (replaced : Replacements) (start : Nat) : TypeForm → GroundType
  | .object members isOpaque => .object (members.map (outlineIn file)) isOpaque
  | .paren inner => .paren (groundType file replaced inner)
  | .union options => .union (groundTypes file replaced options)
  | .intersection parts => .intersection (groundTypes file replaced parts)
  | .literal value => .literal value
  | .query name => .query file name
  | .reference name args =>
    match if name.isSimple then replaced.lookup name.head else none with
    | some t => t
    | none => .reference file start name (groundTypes file replaced args)
  | .keyword _ => .other
  | .function .. => .other
  | .other => .other

/-- Types of a file with their parameters replaced. -/
def groundTypes (file : Path) (replaced : Replacements) : List TypeExpr → List GroundType
  | [] => []
  | t :: rest => groundType file replaced t :: groundTypes file replaced rest

end

mutual

/-- What the parameters of a scope are replaced by. -/
def Scope.ground : Scope → Replacements
  | .of bindings => groundBindings bindings

/-- What parameters are replaced by. -/
def groundBindings : List (String × Binding) → Replacements
  | [] => []
  | b :: rest => groundBinding b :: groundBindings rest

/-- What a parameter is replaced by. -/
def groundBinding : String × Binding → String × GroundType
  | (name, b) => (name, b.ground)

/-- A type argument with the parameters of its own scope replaced. -/
def Binding.ground : Binding → GroundType
  | ⟨_, file, t, scope⟩ => groundType file scope.ground t

end

/-- The type at a place with the parameters of its scope replaced. -/
def TypePlace.ground (place : TypePlace) : GroundType :=
  groundType place.file place.scope.ground place.type

/-- What the parameters of a declaration are replaced by: the arguments, or their defaults with the
parameters before them replaced, or `unknown`. -/
def groundParams (path : Path) (replaced : Replacements) :
    List GroundType → List TypeParam → Replacements
  | _, [] => replaced
  | args, param :: params =>
    let value := match args.head?, param.default? with
      | some arg, _ => arg
      | none, some t => groundType path replaced t
      | none, none => .other
    groundParams path ((param.name, value) :: replaced) args.tail params

/-- The body of a declaration with its parameters replaced. -/
inductive Instance where
  | interface (members : List MemberInfo) (bases : List GroundType)
  | typeAlias (type : GroundType)

namespace Program

variable (p : Program)

/-- The instance of the declaration that a name of a file leads to for some arguments. -/
def instance? (steps : Nat) (file : Path) (name : TypeName) (args : List GroundType) :
    Option Instance :=
  match p.resolve steps file name with
  | some (.interface path i) =>
    if i.isOpaque then none
    else
      let replaced := groundParams path [] args i.typeParams
      some (.interface (i.members.map (outlineIn path)) (i.bases.map (groundType path replaced)))
  | some (.typeAlias path a) =>
    some (.typeAlias (groundType path (groundParams path [] args a.typeParams) a.type))
  | _ => none

/-- The string literals of a union, within a number of steps. -/
def groundKeys? : Nat → GroundType → Option (List String)
  | 0, _ => none
  | n + 1, t =>
    match t with
    | .literal value => some [value]
    | .paren inner => groundKeys? n inner
    | .union options => (options.mapM (groundKeys? n)).map List.flatten
    | .reference file _ name [] =>
      match p.resolve (n + 1) file name with
      | some (.typeAlias path a) =>
        if a.typeParams.isEmpty then groundKeys? n (groundType path [] a.type) else none
      | _ => none
    | _ => none

/-- The outlines of the members of a schema's type, where the helper stands in a file. -/
def groundSchema? (file : Path) (start : Nat) (args : List GroundType) (mode : SchemaMode) :
    Option (List MemberInfo) :=
  match args.head?.map GroundType.stripParens with
  | some (.query home name) =>
    (p.schemaMembers? home start [⟨.query name, "", start, []⟩] mode).map
      (·.map fun m => { m.outline with origin := file })
  | _ => none

/-- The outlines of the members of an instance, where `expand` gives those of its types. -/
def instanceMembers? (expand : GroundType → Option (List MemberInfo)) :
    Instance → Option (List MemberInfo)
  | .interface members bases =>
    some ((bases.filterMap expand).foldl MemberInfo.addMissing members)
  | .typeAlias t => expand t

/-- The outlines of the members of a type without parameters, within a number of steps. -/
def expandGround : Nat → GroundType → Option (List MemberInfo)
  | 0, _ => none
  | n + 1, t =>
    match t with
    | .object members isOpaque => if isOpaque then none else some members
    | .paren inner => expandGround n inner
    | .intersection parts =>
      (parts.mapM (expandGround n)).map (·.foldl MemberInfo.addMissing [])
    | .reference file start name args =>
      match p.roleOf file .empty name with
      | .parameter _ => none
      | .utility => do
        let target ← args.head?
        let members ← expandGround n target
        applyUtility name.head members ((args[1]?).bind (p.groundKeys? n))
      | .schema mode => p.groundSchema? file start args mode
      | .declared => (p.instance? (n + 1) file name args).bind (instanceMembers? (expandGround n))
    | _ => none

end Program

/-! ## Replacing parameters -/

section

variable {file path : Path} {replaced : Replacements} {scope : Scope}

/-- Types are replaced one by one. -/
theorem groundTypes_eq_map (ts : List TypeExpr) :
    groundTypes file replaced ts = ts.map (groundType file replaced) := by
  induction ts with
  | nil => rfl
  | cons t ts ih => rw [groundTypes, ih, List.map_cons]

/-- A type is replaced by its form. -/
theorem groundType_eq (t : TypeExpr) :
    groundType file replaced t = groundForm file replaced t.start t.form := by
  cases t
  rfl

/-- A parameter is replaced by what it is bound to, in the scope of that. -/
theorem lookup_ground (scope : Scope) (name : String) :
    scope.ground.lookup name = (scope.find? name).map Binding.ground := by
  obtain ⟨bindings⟩ := scope
  rw [Scope.ground, Scope.find?, Scope.bindings]
  induction bindings with
  | nil => rfl
  | cons b rest ih =>
    obtain ⟨name', b⟩ := b
    rw [groundBindings, groundBinding, List.lookup_cons, List.lookup_cons, ih]
    cases name == name' <;> rfl

/-- One more parameter is bound. -/
theorem ground_bind (scope : Scope) (name : String) (b : Binding) :
    (scope.bind name b).ground = (name, b.ground) :: scope.ground := by
  obtain ⟨bindings⟩ := scope
  rfl

/-- A type argument is replaced where it was written. -/
theorem Binding.ground_eq (b : Binding) :
    b.ground = TypePlace.ground ⟨b.file, b.scope, b.type⟩ := by
  cases b
  rfl

/-- A reference to a bound parameter is replaced. -/
theorem groundForm_of_bound {start : Nat} {name : TypeName} {args : List TypeExpr} {b : Binding}
    (hb : Program.boundTo scope name = some b) :
    groundForm file scope.ground start (.reference name args) = b.ground := by
  rw [Program.boundTo] at hb
  rw [groundForm]
  split at hb
  · next hsimple => rw [if_pos hsimple, lookup_ground, hb]; rfl
  · cases hb

/-- Another reference is kept, and its arguments are replaced. -/
theorem groundForm_of_unbound {start : Nat} {name : TypeName} {args : List TypeExpr}
    (hb : Program.boundTo scope name = none) :
    groundForm file scope.ground start (.reference name args) =
      .reference file start name (args.map (groundType file scope.ground)) := by
  rw [Program.boundTo] at hb
  rw [groundForm, groundTypes_eq_map]
  split at hb
  · next hsimple => rw [if_pos hsimple, lookup_ground, hb]; rfl
  · next hsimple => rw [if_neg hsimple]

/-- The scope of a declaration's body replaces its parameters by the arguments of the reference. -/
theorem ground_bindParams (p : Program) (declScope : Scope) (args : List TypeExpr)
    (params : List TypeParam) :
    (p.bindParams file scope path declScope args params).ground =
      groundParams path declScope.ground (args.map (groundType file scope.ground)) params := by
  induction params generalizing args declScope with
  | nil => rw [Program.bindParams, groundParams]
  | cons param params ih =>
    rw [Program.bindParams, groundParams, ih, ground_bind, List.map_tail]
    congr 3
    unfold Program.bindingOf
    cases args with
    | cons arg rest => rfl
    | nil => cases param.default? <;> rfl

/-- Parentheses are stripped alike. -/
theorem stripParens_groundType (t : TypeExpr) :
    (groundType file replaced t).stripParens =
      (groundType file replaced t.stripParens).stripParens := by
  fun_induction TypeExpr.stripParens t with
  | case1 inner text start names ih => rwa [groundType, groundForm, GroundType.stripParens]
  | case2 t _ => rfl

end

/-! ## Outlines -/

namespace MemberInfo

/-- Members that are missing are so in outline. -/
theorem addMissing_outline (known more : List MemberInfo) :
    addMissing (known.map outline) (more.map outline) = (addMissing known more).map outline := by
  rw [addMissing, addMissing, List.foldl_map]
  refine List.foldl_hom (List.map outline) fun known m => ?_
  rw [List.any_map]
  change (if known.any (·.name == m.name) then _ else _) = _
  split
  · rfl
  · rw [List.map_append, List.map_singleton]

/-- Lists of members are put together in outline. -/
theorem foldl_addMissing_outline (known : List MemberInfo) (lists : List (List MemberInfo)) :
    (lists.map (·.map outline)).foldl addMissing (known.map outline) =
      (lists.foldl addMissing known).map outline := by
  rw [List.foldl_map]
  exact List.foldl_hom (List.map outline) addMissing_outline

/-- A utility type does the same in outline. -/
theorem applyUtility_outline (utility : String) (members : List MemberInfo)
    (keys? : Option (List String)) :
    Program.applyUtility utility (members.map outline) keys? =
      (Program.applyUtility utility members keys?).map (·.map outline) := by
  have hoptional : ∀ optional : Bool,
      (members.map outline).map (fun m => { m with optional := optional }) =
        (members.map fun m => { m with optional := optional }).map outline := fun optional => by
    rw [List.map_map, List.map_map]
    rfl
  have hfilter : ∀ test : String → Bool, (members.map outline).filter (fun m => test m.name) =
      (members.filter fun m => test m.name).map outline := fun test => List.filter_map
  unfold Program.applyUtility
  split
  · rw [hoptional]; rfl
  · rw [hoptional]; rfl
  · rfl
  · cases keys? with
    | none => rfl
    | some keys => exact congrArg some (hfilter keys.contains)
  · cases keys? with
    | none => rfl
    | some keys => exact congrArg some (hfilter fun name => !keys.contains name)
  · rfl

/-- Runs are sorted in outline. -/
theorem sortRuns_outline (members : List MemberInfo) :
    sortRuns (members.map outline) = (sortRuns members).map outline := by
  let Outlined (m m' : MemberInfo) : Prop := outline m = m'
  have hiff : ∀ ms ms', List.Forall₂ Outlined ms ms' ↔ ms.map outline = ms' := fun ms ms' => by
    rw [← List.forall₂_map_left_iff, List.forall₂_eq_eq_eq]
  have hruns : List.Forall₂ (List.Forall₂ Outlined) (members.splitBy (·.origin == ·.origin))
      ((members.map outline).splitBy (·.origin == ·.origin)) :=
    splitBy_rel (by rintro _ _ _ _ rfl rfl; rfl) ((hiff _ _).2 rfl)
  refine ((hiff _ _).1 (List.rel_flatMap hruns fun run run' hrun => ?_)).symm
  exact mergeSort_rel hrun (by rintro _ _ _ _ _ _ rfl rfl; rfl)

end MemberInfo

/-! ## Runs that stay within their steps -/

namespace Program

/-- Keys are read, and names on the way looked up, with steps left. -/
def KeysWithin (p : Program) : Nat → TypePlace → Prop :=
  Throughout p.KeyCalls fun n place =>
    n ≠ 0 ∧ ∀ name, KeyName place name → p.NameWithin n (.inside place.file name)

/-- A type is expanded with steps left, and so are names looked up and keys read on the way. -/
def Within (p : Program) : Nat → TypePlace → Prop :=
  Throughout (p.Calls p.schemaMembers?) fun
    | 0, _ => False
    | n + 1, place =>
      (∀ name args, p.DeclaredName place name args →
        p.NameWithin (n + 1) (.inside place.file name)) ∧
      ∀ key, p.ReadsKeys p.schemaMembers? n place key → p.KeysWithin n key

/-- A parameter with type arguments stands where keys are read. -/
def KeyOverlooks (place : TypePlace) : Prop :=
  ∃ name arg args b, place.type.form = .reference name (arg :: args) ∧
    boundTo place.scope name = some b

/-- A helper of the schema library is given a parameter in the place of a schema: its argument names
one only with the parameters replaced. -/
def SchemaOverlooks (p : Program) (place : TypePlace) : Prop :=
  ∃ name arg args mode home schema, place.type.form = .reference name (arg :: args) ∧
    p.roleOf place.file place.scope name = .schema mode ∧
    (groundType place.file place.scope.ground arg).stripParens = .query home schema ∧
    ∀ schema, arg.stripParens.form ≠ .query schema

/-- No helper of the schema library stands where a name is taken for something else. -/
theorem not_schemaOverlooks {p : Program} {place : TypePlace} {name : TypeName}
    {args : List TypeExpr} (h : place.type.form = .reference name args)
    (hrole : ∀ mode, p.roleOf place.file place.scope name ≠ .schema mode) :
    ¬ p.SchemaOverlooks place := by
  rintro ⟨name', arg, args', mode, home, schema, h', hschema, -⟩
  obtain ⟨rfl, -⟩ := reference_inj h h'
  exact hrole mode hschema

/-- No parameter is overlooked on the way to the members of a type. -/
def SeesParameters (p : Program) : Nat → TypePlace → Prop :=
  Throughout (p.Calls p.schemaMembers?) fun
    | 0, _ => True
    | n + 1, place => ¬ p.SchemaOverlooks place ∧ ∀ key, p.ReadsKeys p.schemaMembers? n place key →
      Throughout p.KeyCalls (fun _ place => ¬ KeyOverlooks place) n key

variable {p : Program} {n k : Nat} {place : TypePlace}

/-- Keys are those of the type in which parameters are replaced. -/
theorem groundKeys?_eq (hwithin : p.KeysWithin n place)
    (hsees : Throughout p.KeyCalls (fun _ place => ¬ KeyOverlooks place) n place) (hk : n ≤ k) :
    p.groundKeys? k place.ground = p.stringKeys? n place.file place.scope place.type := by
  induction n generalizing k place with
  | zero => exact absurd rfl hwithin.here.1
  | succ n ih =>
    obtain ⟨k, rfl⟩ : ∃ j, k = j + 1 := ⟨k - 1, by omega⟩
    have hk' := Nat.le_of_succ_le_succ hk
    rw [stringKeys?]
    cases hform : place.type.form with
    | literal value => rw [TypePlace.ground, groundType_eq, hform]; rfl
    | paren inner =>
      rw [TypePlace.ground, groundType_eq, hform]
      exact ih (hwithin.call (.paren hform)) (hsees.call (.paren hform)) hk'
    | union options =>
      rw [TypePlace.ground, groundType_eq, hform, groundForm, groundTypes_eq_map, groundKeys?]
      dsimp only
      rw [List.mapM_map]
      refine congrArg _ (mapM_congr_of_called fun before option after heq hbefore => ?_).symm
      have hoption := KeyCalls.option (heq ▸ hform) hbefore
      exact (ih (hwithin.call hoption) (hsees.call hoption) hk').symm
    | reference name args =>
      rw [TypePlace.ground, groundType_eq, hform]
      cases hb : boundTo place.scope name with
      | some b =>
        rw [groundForm_of_bound hb]
        cases args with
        | cons arg rest => exact (hsees.here ⟨name, arg, rest, b, hform, hb⟩).elim
        | nil =>
          have hfound := hb
          rw [boundTo] at hfound
          dsimp only
          rw [hfound, b.ground_eq]
          exact ih (hwithin.call (.parameter hform hb)) (hsees.call (.parameter hform hb))
            (Nat.le_of_succ_le hk)
      | none =>
        rw [groundForm_of_unbound hb]
        cases args with
        | cons arg rest => rfl
        | nil =>
          have hfound := hb
          rw [boundTo] at hfound
          dsimp only
          rw [hfound, List.map_nil, groundKeys?]
          dsimp only
          have hname : p.resolve (k + 1) place.file name = p.resolve (n + 1) place.file name :=
            resolve_eq_of_le (hwithin.here.2 name ⟨hform, hb⟩) hk
          rw [hname]
          cases ha : p.resolve (n + 1) place.file name with
          | none => rfl
          | some s =>
            cases s with
            | typeAlias path a =>
              dsimp only
              split
              · next hplain =>
                have hbody : p.KeyCalls n place ⟨path, .empty, a.type⟩ :=
                  .body ⟨hform, hb⟩ ha hplain
                exact ih (hwithin.call hbody) (hsees.call hbody) hk'
              · rfl
            | interface | opaqueType | external => rfl
    | _ => rw [TypePlace.ground, groundType_eq, hform]; rfl

/-- Schemas are read from the first argument without its parentheses, if that names one. -/
theorem schemaMembers?_eq (p : Program) (file : Path) (start : Nat) (args : List TypeExpr)
    (mode : SchemaMode) :
    p.schemaMembers? file start args mode =
      match args.head?.map (·.stripParens.form) with
      | some (.query name) =>
        p.schemaMembers? file start [⟨.query name, "", start, []⟩] mode
      | _ => none := by
  cases args with
  | nil => rfl
  | cons arg rest =>
    rw [schemaMembers?, List.head?_cons]
    simp only [bind, Option.bind_some, Option.map_some]
    cases arg.stripParens.form with
    | query name => rfl
    | _ => rfl

/-- The members of a schema are taken to be declared where the helper stands. -/
theorem origin_of_mem_schemaMembers {file : Path} {start : Nat} {args : List TypeExpr}
    {mode : SchemaMode} {members : List MemberInfo}
    (h : p.schemaMembers? file start args mode = some members) :
    ∀ m ∈ members, m.origin = file := by
  unfold schemaMembers? at h
  obtain ⟨arg, -, h⟩ := Option.bind_eq_some_iff.1 h
  split at h
  · next name _ =>
    simp only [bind] at h
    split at h
    · cases h
    · obtain ⟨found, -, h⟩ := Option.bind_eq_some_iff.1 h
      obtain ⟨fields, -, h⟩ := Option.bind_eq_some_iff.1 h
      obtain rfl := Option.some.inj h
      exact List.forall_mem_map.2 fun _ _ => rfl
  · cases h

/-- What a helper of the schema library gives is the same with parameters replaced, unless one of
them is overlooked. -/
theorem groundSchema?_eq {name : TypeName} {args : List TypeExpr} {mode : SchemaMode}
    (hform : place.type.form = .reference name args)
    (hrole : p.roleOf place.file place.scope name = .schema mode)
    (hsees : ¬ p.SchemaOverlooks place) :
    p.groundSchema? place.file place.type.start
        (args.map (groundType place.file place.scope.ground)) mode =
      (p.schemaMembers? place.file place.type.start args mode).map
        (·.map MemberInfo.outline) := by
  cases args with
  | nil => rfl
  | cons arg rest =>
    rw [schemaMembers?_eq, groundSchema?, List.map_cons, List.head?_cons, List.head?_cons]
    simp only [Option.map_some]
    by_cases hquery : ∃ schema, arg.stripParens.form = .query schema
    · obtain ⟨schema, hquery⟩ := hquery
      have hground : (groundType place.file place.scope.ground arg).stripParens =
          .query place.file schema := by
        rw [stripParens_groundType, groundType_eq, hquery]
        rfl
      rw [hground, hquery]
      dsimp only
      cases hmembers : p.schemaMembers? place.file place.type.start
          [⟨.query schema, "", place.type.start, []⟩] mode with
      | none => rfl
      | some members =>
        refine congrArg some (List.map_congr_left fun m hm => ?_)
        rw [← origin_of_mem_schemaMembers hmembers m hm]
        rfl
    · have hother : ∀ schema, arg.stripParens.form ≠ .query schema := not_exists.1 hquery
      have hground : ∀ home schema,
          (groundType place.file place.scope.ground arg).stripParens ≠ .query home schema :=
        fun home schema heq =>
          hsees ⟨name, arg, rest, mode, home, schema, hform, hrole, heq, hother⟩
      split
      · next heq => exact (hground _ _ (Option.some.inj heq)).elim
      · split
        · next heq => exact (hother _ (Option.some.inj heq)).elim
        · rfl

/-- Calls that all go on alike go on after each other. -/
theorem mapM_option_map {α β γ : Type} (f : α → Option β) (g : β → γ) (as : List α) :
    as.mapM (fun a => (f a).map g) = (as.mapM f).map (List.map g) := by
  induction as with
  | nil => rfl
  | cons a as ih =>
    rw [List.mapM_cons, List.mapM_cons, ih]
    cases f a with
    | none => rfl
    | some b => cases as.mapM f <;> rfl

/-- Only two utility types look at the keys. -/
theorem applyUtility_congr {utility : String} {members : List MemberInfo}
    {keys? keys?' : Option (List String)}
    (h : utility = "Pick" ∨ utility = "Omit" → keys? = keys?') :
    applyUtility utility members keys? = applyUtility utility members keys?' := by
  unfold applyUtility
  split
  · rfl
  · rfl
  · rfl
  · rw [h (.inl rfl)]
  · rw [h (.inr rfl)]
  · rfl

/-- A name that is not bound is taken for the same without the parameters. -/
theorem roleOf_empty {file : Path} {scope : Scope} {name : TypeName}
    (hb : boundTo scope name = none) : p.roleOf file .empty name = p.roleOf file scope name := by
  have hempty : boundTo .empty name = none := ite_self _
  rw [roleOf, roleOf, hb, hempty]

/-- The instance of an interface has the members of the interface, if the bases have those of its
bases. -/
theorem instance_interface {args : List TypeExpr} {path : Path} {i : InterfaceDecl}
    {expand : GroundType → Option (List MemberInfo)}
    (h : ∀ base ∈ i.bases,
      let below : TypePlace := ⟨path, p.bodyScope place path args i.typeParams, base⟩
      expand below.ground =
        (p.expandWith p.schemaMembers? n below).map (·.map MemberInfo.outline)) :
    let inner := p.bodyScope place path args i.typeParams
    let ground := groundType path
      (groundParams path [] (args.map (groundType place.file place.scope.ground)) i.typeParams)
    ((i.bases.map ground).filterMap expand).foldl MemberInfo.addMissing
        (i.members.map (outlineIn path)) =
      ((i.bases.filterMap fun base => p.expandWith p.schemaMembers? n ⟨path, inner, base⟩).foldl
        MemberInfo.addMissing (i.members.map (p.memberIn path inner))).map MemberInfo.outline := by
  intro inner ground
  have hinner : inner.ground =
      groundParams path [] (args.map (groundType place.file place.scope.ground)) i.typeParams :=
    ground_bindParams p .empty args i.typeParams
  have hmembers : i.members.map (outlineIn path) =
      (i.members.map (p.memberIn path inner)).map MemberInfo.outline := by
    rw [List.map_map]
    rfl
  rw [hmembers, List.filterMap_map, ← MemberInfo.foldl_addMissing_outline, List.map_filterMap]
  refine congrArg (List.foldl _ _) (List.filterMap_congr fun base hbase => ?_)
  rw [← h base hbase]
  change expand (groundType path _ base) = expand (groundType path inner.ground base)
  rw [hinner]

/-- A utility type has the members of the one in which parameters are replaced, if its first
argument and its keys do. -/
theorem utility_ground {name : TypeName} {args : List TypeExpr}
    (h : p.UtilityAt place name args)
    (hmembers : ∀ target, args.head? = some target →
      p.expandGround k (TypePlace.ground { place with type := target }) =
        (p.expandWith p.schemaMembers? n { place with type := target }).map
          (·.map MemberInfo.outline))
    (hkeys : ∀ key, p.ReadsKeys p.schemaMembers? n place key →
      p.groundKeys? k key.ground = p.stringKeys? n key.file key.scope key.type) :
    let ground := groundType place.file place.scope.ground
    ((args.map ground).head?.bind fun target => (p.expandGround k target).bind fun members =>
        applyUtility name.head members (((args.map ground)[1]?).bind (p.groundKeys? k))) =
      (args.head?.bind fun target =>
        (p.expandWith p.schemaMembers? n { place with type := target }).bind fun members =>
          applyUtility name.head members ((args[1]?).bind
            (p.stringKeys? n place.file place.scope))).map (·.map MemberInfo.outline) := by
  intro ground
  rw [List.head?_map]
  cases htarget : args.head? with
  | none => rfl
  | some target =>
    have hground : p.expandGround k (ground target) = _ := hmembers target htarget
    simp only [Option.map_some, Option.bind_some, hground]
    cases hsome : p.expandWith p.schemaMembers? n { place with type := target } with
    | none => rfl
    | some members =>
      refine Eq.trans (applyUtility_congr fun hpicks => ?_) (MemberInfo.applyUtility_outline _ _ _)
      rw [List.getElem?_map, Option.bind_map]
      exact Option.bind_congr fun key hkey =>
        hkeys _ (.intro h hpicks htarget (by rw [hsome]; rfl) hkey)

/-- Members are those of the type in which parameters are replaced. -/
theorem expandGround_eq (hwithin : p.Within n place)
    (hsees : p.SeesParameters n place) (hk : n ≤ k) :
    p.expandGround k place.ground =
      (p.expandWith p.schemaMembers? n place).map (·.map MemberInfo.outline) := by
  induction n generalizing k place with
  | zero => exact hwithin.here.elim
  | succ n ih =>
    obtain ⟨k, rfl⟩ : ∃ j, k = j + 1 := ⟨k - 1, by omega⟩
    have hk' := Nat.le_of_succ_le_succ hk
    obtain ⟨hnames, hkeys⟩ := hwithin.here
    obtain ⟨hschema, hkeysSeen⟩ := hsees.here
    rw [expandWith]
    cases hform : place.type.form with
    | object members isOpaque =>
      rw [TypePlace.ground, groundType_eq, hform, groundForm, expandGround]
      dsimp only
      split
      · rfl
      · rw [Option.map_some, List.map_map]; rfl
    | paren inner =>
      rw [TypePlace.ground, groundType_eq, hform]
      exact ih (hwithin.call (.paren hform)) (hsees.call (.paren hform)) hk'
    | intersection parts =>
      have hparts : parts.mapM (fun t => p.expandGround k
          (groundType place.file place.scope.ground t)) =
          parts.mapM fun t => (p.expandWith p.schemaMembers? n { place with type := t }).map
            (·.map MemberInfo.outline) := by
        refine (mapM_congr_of_called fun before part after heq hbefore => ?_).symm
        have hpart : p.Calls p.schemaMembers? n place { place with type := part } :=
          .part (heq ▸ hform) fun t ht => by simpa using hbefore t ht
        exact (ih (hwithin.call hpart) (hsees.call hpart) hk').symm
      rw [TypePlace.ground, groundType_eq, hform, groundForm, groundTypes_eq_map, expandGround]
      dsimp only
      rw [List.mapM_map]
      refine (congrArg _ (hparts.trans (mapM_option_map _ _ _))).trans ?_
      cases parts.mapM fun t => p.expandWith p.schemaMembers? n { place with type := t } with
      | none => rfl
      | some lists => exact congrArg some (MemberInfo.foldl_addMissing_outline [] lists)
    | reference name args =>
      rw [TypePlace.ground, groundType_eq, hform]
      cases hb : boundTo place.scope name with
      | some b =>
        have hrole : p.roleOf place.file place.scope name = .parameter b := by rw [roleOf, hb]
        rw [groundForm_of_bound hb, b.ground_eq]
        dsimp only
        rw [hrole]
        exact ih (hwithin.call (.parameter hform hb)) (hsees.call (.parameter hform hb))
          (Nat.le_of_succ_le hk)
      | none =>
        rw [groundForm_of_unbound hb, expandGround]
        dsimp only
        rw [roleOf_empty hb]
        cases hrole : p.roleOf place.file place.scope name with
        | parameter b => rw [boundTo_of_roleOf hrole] at hb; cases hb
        | schema mode => exact groundSchema?_eq hform hrole hschema
        | utility =>
          have hutility : p.UtilityAt place name args := ⟨hform, hrole⟩
          refine utility_ground hutility (fun target htarget => ?_) fun key hreads => ?_
          · have hcall : p.Calls p.schemaMembers? n place _ := .target hutility htarget
            exact ih (hwithin.call hcall) (hsees.call hcall) hk'
          · exact groundKeys?_eq (hkeys key hreads) (hkeysSeen key hreads) hk'
        | declared =>
          dsimp only
          have hdeclared : p.DeclaredName place name args := ⟨hform, hrole⟩
          have hname : p.resolve (k + 1) place.file name = p.resolve (n + 1) place.file name :=
            resolve_eq_of_le (hnames name args hdeclared) hk
          rw [instance?, hname]
          cases hr : p.resolve (n + 1) place.file name with
          | none => rfl
          | some s =>
            cases s with
            | typeAlias path a =>
              have hbody : p.Calls p.schemaMembers? n place _ := .body hdeclared hr
              rw [← ih (hwithin.call hbody) (hsees.call hbody) hk', TypePlace.ground, bodyScope,
                ground_bindParams]
              rfl
            | interface path i =>
              dsimp only
              cases hopen : i.isOpaque with
              | true => rfl
              | false =>
                refine congrArg some (instance_interface fun base hbase => ?_)
                have hcall : p.Calls p.schemaMembers? n place _ :=
                  .base hdeclared hr hopen hbase
                exact ih (hwithin.call hcall) (hsees.call hcall) hk'
            | opaqueType | external => rfl
    | _ => rw [TypePlace.ground, groundType_eq, hform]; rfl

/-- A helper that overlooks a parameter gives no members. -/
theorem expandWith_of_schemaOverlooks (h : p.SchemaOverlooks place) :
    p.expandWith p.schemaMembers? n place = none := by
  obtain ⟨name, arg, args, mode, home, schema, hform, hrole, -, hother⟩ := h
  cases n with
  | zero => rfl
  | succ n =>
    rw [expandWith, hform]
    dsimp only
    rw [hrole]
    dsimp only
    rw [schemaMembers?_eq, List.head?_cons, Option.map_some]
    split
    · next heq => exact (hother _ (Option.some.inj heq)).elim
    · rfl

/-- **Members are those of the instance.** A reference to a declared name has the members of the
declaration's body in which the parameters are replaced by the arguments, missing ones by their
defaults or `unknown`, each in the file where it was written: with the same names, order and
optionality, or none alike. The expansion has to stay within `maxSteps`; then so does that of the
instance, which takes no more steps. No parameter may be overlooked on the way. -/
theorem members_eq_instance (p : Program) (file : Path) (t : TypeExpr) (name : TypeName)
    (args : List TypeExpr) (h : p.DeclaredName ⟨file, .empty, t⟩ name args)
    (hwithin : p.Within maxSteps ⟨file, .empty, t⟩)
    (hsees : p.SeesParameters maxSteps ⟨file, .empty, t⟩) :
    ∀ steps ≥ maxSteps, (p.members? file t).map (·.map MemberInfo.outline) =
      ((p.instance? steps file name (args.map (groundType file []))).bind
        (instanceMembers? (p.expandGround (steps - 1)))).map MemberInfo.sortRuns := by
  intro steps hsteps
  obtain ⟨k, rfl⟩ : ∃ k, steps = k + 1 := ⟨steps - 1, by rw [maxSteps] at hsteps; omega⟩
  have hground : p.expandGround (k + 1) (TypePlace.ground ⟨file, .empty, t⟩) =
      (p.instance? (k + 1) file name (args.map (groundType file []))).bind
        (instanceMembers? (p.expandGround k)) := by
    have hunbound : boundTo .empty name = none := ite_self _
    rw [TypePlace.ground, groundType_eq, h.1, groundForm_of_unbound hunbound, expandGround]
    dsimp only
    rw [h.2]
    rfl
  rw [Nat.add_sub_cancel, ← hground, expandGround_eq hwithin hsees hsteps, members?,
    expand_eq_expandWith, Option.map_map, Option.map_map]
  exact congrFun (congrArg _ (funext fun members =>
    (MemberInfo.sortRuns_outline members).symm)) _

/-! ## An alias with parameters for a utility type -/

/-- A file with `type Fields<T, K> = Pick<T, K>` and an interface of two properties. -/
def fieldsProgram : Program where
  modules := [{ SourceModule.empty ⟨"/src/api.ts"⟩ with
    interfaces := ⟨[("User", ⟨"User", [], [⟨"id", false, .ofKeyword "string" 0, 0⟩,
      ⟨"name", true, .ofKeyword "string" 0, 12⟩], [], false⟩)]⟩
    aliases := ⟨[("Fields", ⟨"Fields", [⟨"T", none⟩, ⟨"K", none⟩],
      ⟨.reference (.simple "Pick") [namedType "T", namedType "K"], "Pick<T, K>", 0,
        [.simple "Pick", .simple "T", .simple "K"]⟩, 0⟩)]⟩ }]
  unreadable := []

/-- The arguments in `Fields<User, 'name'>`. -/
def fieldsArgs : List TypeExpr := [namedType "User", ⟨.literal "name", "'name'", 0, []⟩]

/-- `Fields<User, 'name'>` -/
def fieldsType : TypeExpr :=
  ⟨.reference (.simple "Fields") fieldsArgs, "Fields<User, 'name'>", 0,
    [.simple "Fields", .simple "User"]⟩

/-- The reference to the alias. -/
def fieldsPlace : TypePlace := ⟨⟨"/src/api.ts"⟩, .empty, fieldsType⟩

/-- The body of the alias. -/
def fieldsBody : TypePlace :=
  ⟨⟨"/src/api.ts"⟩,
    fieldsProgram.bodyScope fieldsPlace ⟨"/src/api.ts"⟩ fieldsArgs [⟨"T", none⟩, ⟨"K", none⟩],
    ⟨.reference (.simple "Pick") [namedType "T", namedType "K"], "Pick<T, K>", 0,
      [.simple "Pick", .simple "T", .simple "K"]⟩⟩

/-- A type in the place of the body. -/
def fieldsPart (name : String) : TypePlace := { fieldsBody with type := namedType name }

/-- The interface that the first parameter is bound to. -/
def fieldsUser : TypePlace := ⟨⟨"/src/api.ts"⟩, .empty, namedType "User"⟩

/-- The literal that the second parameter is bound to. -/
def fieldsKey : TypePlace := ⟨⟨"/src/api.ts"⟩, .empty, ⟨.literal "name", "'name'", 0, []⟩⟩

/-- The alias leads to its body, that to its first parameter, and that to the interface. -/
theorem throughout_fields {good : Nat → TypePlace → Prop} (hplace : good 17 fieldsPlace)
    (hbody : good 16 fieldsBody) (hpart : good 15 (fieldsPart "T")) (huser : good 14 fieldsUser) :
    Throughout (fieldsProgram.Calls fieldsProgram.schemaMembers?) good 17 fieldsPlace := by
  have hfields : fieldsProgram.DeclaredName fieldsPlace (.simple "Fields") fieldsArgs := ⟨rfl, rfl⟩
  have hpick : fieldsProgram.UtilityAt fieldsBody (.simple "Pick")
      [namedType "T", namedType "K"] := ⟨rfl, rfl⟩
  have hparameter : (fieldsPart "T").type.form = .reference (.simple "T") [] := rfl
  have hdeclared : fieldsProgram.DeclaredName fieldsUser (.simple "User") [] := ⟨rfl, rfl⟩
  exact throughout_alias hplace hfields rfl (throughout_utility hbody hpick rfl
    (throughout_parameter hpart hparameter rfl (throughout_interface huser hdeclared rfl nofun)))

/-- The body reads keys from its second parameter, and that leads to the literal. -/
theorem throughout_fieldsKeys {good : Nat → TypePlace → Prop} (hpart : good 15 (fieldsPart "K"))
    (hliteral : good 14 fieldsKey) {key : TypePlace}
    (h : fieldsProgram.ReadsKeys fieldsProgram.schemaMembers? 15 fieldsBody key) :
    Throughout fieldsProgram.KeyCalls good 15 key := by
  cases h with
  | intro hutility _ _ _ hkey =>
    have hpick : fieldsBody.type.form =
        .reference (.simple "Pick") [namedType "T", namedType "K"] := rfl
    obtain ⟨rfl, rfl⟩ := reference_inj hpick hutility.1
    cases hkey
    have hparameter : (fieldsPart "K").type.form = .reference (.simple "K") [] := rfl
    have hname : fieldsKey.type.form = .literal "name" := rfl
    exact throughout_keyParameter hpart hparameter rfl (throughout_keyLiteral hliteral hname)

/-- The alias stays within the steps. -/
theorem within_fields : fieldsProgram.Within 17 fieldsPlace := by
  refine throughout_fields ⟨fun name args h => ?_, fun key hkey => ?_⟩
    ⟨fun name args h => ?_, fun key hkey => ?_⟩ ⟨fun name args h => ?_, fun key hkey => ?_⟩
    ⟨fun name args h => ?_, fun key hkey => ?_⟩
  · obtain ⟨rfl, rfl⟩ := reference_inj (rfl : fieldsPlace.type.form = _) h.1
    exact throughout_declaredAt (.intro rfl rfl) (by decide)
  · exact (hkey.of_declared ⟨rfl, rfl⟩).elim
  · obtain ⟨rfl, rfl⟩ := reference_inj (rfl : fieldsBody.type.form = _) h.1
    cases h.2
  · refine throughout_fieldsKeys ⟨by decide, fun name h => ?_⟩ ⟨by decide, fun name h => ?_⟩ hkey
    · obtain ⟨rfl, -⟩ := reference_inj (rfl : (fieldsPart "K").type.form = _) h.1
      cases h.2
    · cases h.1
  · obtain ⟨rfl, rfl⟩ := reference_inj (rfl : (fieldsPart "T").type.form = _) h.1
    cases h.2
  · exact (hkey.of_parameter rfl rfl).elim
  · obtain ⟨rfl, rfl⟩ := reference_inj (rfl : fieldsUser.type.form = _) h.1
    exact throughout_declaredAt (.intro rfl rfl) (by decide)
  · exact (hkey.of_declared ⟨rfl, rfl⟩).elim

/-- The alias overlooks no parameter. -/
theorem sees_fields : fieldsProgram.SeesParameters 17 fieldsPlace := by
  refine throughout_fields
    ⟨not_schemaOverlooks rfl nofun, fun key hkey => ?_⟩
    ⟨not_schemaOverlooks rfl nofun, fun key hkey => ?_⟩
    ⟨not_schemaOverlooks rfl nofun, fun key hkey => ?_⟩
    ⟨not_schemaOverlooks rfl nofun, fun key hkey => ?_⟩
  · exact (hkey.of_declared ⟨rfl, rfl⟩).elim
  · refine throughout_fieldsKeys ?_ ?_ hkey <;> rintro ⟨name, arg, args, b, h, -⟩ <;> cases h
  · exact (hkey.of_parameter rfl rfl).elim
  · exact (hkey.of_declared ⟨rfl, rfl⟩).elim

/-- `Fields<User, 'name'>` has the one property that its instance has. -/
theorem members_eq_instance_fields :
    (fieldsProgram.expand maxSteps ⟨"/src/api.ts"⟩ .empty fieldsType).map
        (·.map MemberInfo.outline) =
      some [⟨"name", true, .plain "", ⟨"/src/api.ts"⟩, 12⟩] ∧
    (fieldsProgram.members? ⟨"/src/api.ts"⟩ fieldsType).map (·.map MemberInfo.outline) =
      ((fieldsProgram.instance? 17 ⟨"/src/api.ts"⟩ (.simple "Fields")
          [.reference ⟨"/src/api.ts"⟩ 0 (.simple "User") [], .literal "name"]).bind
        (instanceMembers? (fieldsProgram.expandGround 16))).map
          MemberInfo.sortRuns :=
  ⟨rfl, members_eq_instance fieldsProgram ⟨"/src/api.ts"⟩ fieldsType (.simple "Fields") fieldsArgs
    ⟨rfl, rfl⟩ within_fields sees_fields 17 le_rfl⟩

end Program

end IpcWiring
