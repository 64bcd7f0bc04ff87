import IpcWiring.Program.Render
import IpcWiring.Program.Schemas
import IpcWiring.Schema.Shape

/-!
# Members of object types

`Program.members?` lists the properties of a type that has the shape of an object: a literal, an
interface with its bases, an alias, an intersection, a utility type, or the type of a schema. Type
parameters are bound on the way and every property is rendered where it is declared.
-/

namespace IpcWiring

open Script

/-- A property of an expanded type. -/
structure MemberInfo where
  name : String
  optional : Bool
  /-- The type with what it needs elsewhere. -/
  type : Rendered
  /-- The file that declares the property. -/
  origin : Path
  /-- The byte offset of the declaration. -/
  position : Nat
deriving Inhabited

namespace MemberInfo

/-- Adds the members whose names a list does not have. -/
def addMissing (known more : List MemberInfo) : List MemberInfo :=
  more.foldl (fun ms m => if ms.any (·.name == m.name) then ms else ms ++ [m]) known

/-- Sorts each run of members from one file by position. -/
def sortRuns (members : List MemberInfo) : List MemberInfo :=
  (members.splitBy (·.origin == ·.origin)).flatMap (·.mergeSort (·.position ≤ ·.position))

end MemberInfo

/-- The types that change which members another type has, or how. -/
def utilityTypes : List String := ["Partial", "Required", "Readonly", "Pick", "Omit"]

namespace Program

variable (p : Program)

/-- A declared property in a scope. -/
def memberIn (file : Path) (scope : Scope) (m : Member) : MemberInfo :=
  ⟨m.name, m.optional, p.renderIn file m.type scope, file, m.start⟩

/-- What a type parameter is bound to: an argument, or its default among the parameters before it,
or `unknown`. -/
def bindingOf (file : Path) (scope : Scope) (declFile : Path) (declScope : Scope)
    (arg? : Option TypeExpr) (param : TypeParam) : Binding :=
  match arg?, param.default? with
  | some arg, _ => ⟨p.renderIn file arg scope, file, arg, scope⟩
  | none, some t => ⟨p.renderIn declFile t declScope, declFile, t, declScope⟩
  | none, none => ⟨.plain "unknown", declFile, .ofKeyword "unknown" 0, .empty⟩

/-- The scope in which the parameters of a declaration are bound to the arguments of a reference,
starting from the parameters bound so far. -/
def bindParams (file : Path) (scope : Scope) (declFile : Path) (declScope : Scope) :
    List TypeExpr → List TypeParam → Scope
  | _, [] => declScope
  | args, param :: params =>
    bindParams file scope declFile
      (declScope.bind param.name (p.bindingOf file scope declFile declScope args.head? param))
      args.tail params

/-- The file declares or imports a type of this name. -/
def shadows (file : Path) (name : String) : Bool :=
  match p.module? file with
  | some m => m.declaresType name || m.imports.contains name
  | none => false

/-! ## Schemas -/

/-- The side of a schema that a helper of the schema library describes, if the name is one. -/
def schemaModeOf? (file : Path) (name : TypeName) : Option SchemaMode := do
  let [helper] := name.rest | none
  let m ← p.module? file
  let isLibrary := match m.imports.find? name.head with
    | some binding => SourceModule.isSchemaModule binding.specifier
    | none => name.head == "z" && !m.declares name.head
  if !isLibrary then failure
  match helper with
  | "infer" | "output" | "TypeOf" => some .output
  | "input" => some .input
  | _ => none

/-- The members of the type of a schema constant that `typeof` names. -/
def schemaMembers? (file : Path) (position : Nat) (args : List TypeExpr) (mode : SchemaMode) :
    Option (List MemberInfo) := do
  let arg ← args.head?
  let .query name := arg.stripParens.form | none
  if !name.isSimple then failure
  let found ← p.schemaLocal maxSteps file name.head
  let fields ← (p.inlineSchema maxSteps found.file found.schema).fields? mode
  return fields.map fun f =>
    ⟨f.name, f.shape.optional, .plain f.shape.text, file, position⟩

/-! ## Expansion -/

/-- The string literals of a union, within a number of steps. -/
def stringKeys? : Nat → Path → Scope → TypeExpr → Option (List String)
  | 0, _, _, _ => none
  | n + 1, file, scope, t =>
    match t.form with
    | .literal value => some [value]
    | .paren inner => stringKeys? n file scope inner
    | .union options => (options.mapM (stringKeys? n file scope)).map List.flatten
    | .reference name [] =>
      match (if name.isSimple then scope.find? name.head else none) with
      | some b => stringKeys? n b.file b.scope b.type
      | none =>
        match p.resolve (n + 1) file name with
        | some (.typeAlias path a) =>
          if a.typeParams.isEmpty then stringKeys? n path .empty a.type else none
        | _ => none
    | _ => none

/-- What a utility type makes of the members of its first argument; `keys?` are the strings of its
second one. -/
def applyUtility (utility : String) (members : List MemberInfo) (keys? : Option (List String)) :
    Option (List MemberInfo) :=
  match utility with
  | "Partial" => some (members.map ({ · with optional := true }))
  | "Required" => some (members.map ({ · with optional := false }))
  | "Readonly" => some members
  | "Pick" => keys?.map fun keys => members.filter fun m => keys.contains m.name
  | "Omit" => keys?.map fun keys => members.filter fun m => !keys.contains m.name
  | _ => none

/-- The members of a type of a file in a scope, within a number of steps. -/
def expand : Nat → Path → Scope → TypeExpr → Option (List MemberInfo)
  | 0, _, _, _ => none
  | n + 1, file, scope, t =>
    match t.form with
    | .object members isOpaque =>
      if isOpaque then none else some (members.map (p.memberIn file scope))
    | .paren inner => expand n file scope inner
    | .intersection parts => do
      let lists ← parts.mapM (expand n file scope)
      return lists.foldl MemberInfo.addMissing []
    | .reference name args =>
      match (if name.isSimple then scope.find? name.head else none) with
      | some b => expand n b.file b.scope b.type
      | none =>
        if name.isSimple && utilityTypes.contains name.head && !p.shadows file name.head then do
          let target ← args.head?
          let members ← expand n file scope target
          applyUtility name.head members ((args[1]?).bind (p.stringKeys? n file scope))
        else match p.schemaModeOf? file name with
          | some mode => p.schemaMembers? file t.start args mode
          | none =>
            match p.resolve (n + 1) file name with
            | some (.interface path i) =>
              if i.isOpaque then none
              else
                let inner := p.bindParams file scope path .empty args i.typeParams
                let bases := i.bases.filterMap (expand n path inner)
                some (bases.foldl MemberInfo.addMissing (i.members.map (p.memberIn path inner)))
            | some (.typeAlias path a) =>
              expand n path (p.bindParams file scope path .empty args a.typeParams) a.type
            | _ => none
    | _ => none

/-- The members of a type in the order in which they are met, each run from one file in the order of
its declarations; none if the type has no list of members. -/
def members? (file : Path) (t : TypeExpr) : Option (List MemberInfo) :=
  (p.expand maxSteps file .empty t).map MemberInfo.sortRuns

end Program

end IpcWiring
