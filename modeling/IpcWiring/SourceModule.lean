import IpcWiring.NameMap
import IpcWiring.Path
import IpcWiring.Schema.Basic
import IpcWiring.Script.Source

/-!
# Source modules

What other modules and the generator need to know of one source file: the names that it imports and
exports, its top-level functions and types, and the schemas among its constants. Nothing inside a
body, block or namespace counts.
-/

namespace IpcWiring

open Script

/-- A name that is imported: the specifier of its module, and what it is there. -/
structure ImportBinding where
  specifier : String
  kind : ImportKind
deriving DecidableEq, Repr

/-- An `export … from` declaration. -/
inductive ReExport where
  | named (exported imported specifier : String)
  | wholeModule (exported specifier : String)
  | all (specifier : String)
deriving DecidableEq, Repr

/-- The module that the declaration exports from. -/
def ReExport.specifier : ReExport → String
  | named _ _ s | wholeModule _ s | all s => s

/-- The name that the declaration exports, if it is one. -/
def ReExport.name? : ReExport → Option String
  | named exported _ _ | wholeModule exported _ => some exported
  | all _ => none

/-- The declarations of a source file. -/
structure SourceModule where
  path : Path
  imports : NameMap ImportBinding
  /-- The local name behind each exported one. -/
  exports : NameMap String
  reexports : List ReExport
  functions : List FunctionDecl
  /-- The functions that are the default export, `default` where they have no name. -/
  defaultFunctions : List String
  /-- The interfaces; several with one name are one. -/
  interfaces : NameMap InterfaceDecl
  aliases : NameMap AliasDecl
  /-- The names of enumerations and classes. -/
  opaqueTypes : List String
  /-- The names of functions, variables, classes and enumerations. -/
  values : List String
  schemas : NameMap Schema

namespace SourceModule

/-- A file without declarations. -/
def empty (path : Path) : SourceModule :=
  ⟨path, .empty, .empty, [], [], [], .empty, .empty, [], [], .empty⟩

/-! ## Names -/

/-- The names that other modules can import, sorted. -/
def exportedNames (m : SourceModule) : List String :=
  Text.sortDistinct (m.exports.keys ++ m.reexports.filterMap ReExport.name?)

/-- A local name is exported as itself. -/
def exportsAsItself (m : SourceModule) (name : String) : Bool := m.exports.find? name == some name

/-- The least of some names. -/
def least? (names : List String) : Option String := (names.mergeSort Text.le).head?

/-- The name under which a local one is exported: itself if it is, else the least one. -/
def exportNameOf? (m : SourceModule) (name : String) : Option String :=
  if m.exportsAsItself name then some name
  else least? ((m.exports.entries.filter (·.2 == name)).map (·.1))

/-- The specifiers that the module imports or exports from, sorted. -/
def dependencies (m : SourceModule) : List String :=
  Text.sortDistinct (m.imports.values.map (·.specifier) ++ m.reexports.map (·.specifier))

/-- The module declares a type of this name. -/
def declaresType (m : SourceModule) (name : String) : Bool :=
  m.interfaces.contains name || m.aliases.contains name || m.opaqueTypes.contains name

/-- The module declares a type or value of this name. -/
def declares (m : SourceModule) (name : String) : Bool :=
  m.declaresType name || m.values.contains name

/-! ## Schemas -/

/-- The schema library's modules. -/
def isSchemaModule (specifier : String) : Bool :=
  specifier == "zod" || Text.startsWith "zod/" specifier

/-- The local names that stand for the schema library; `z` if none is imported. -/
def schemaLibraryNames (statements : List Statement) : List String :=
  let names := statements.flatMap fun
    | .imports specifier items => if isSchemaModule specifier then items.map (·.name) else []
    | _ => []
  if names.isEmpty then ["z"] else names

mutual

/-- An expression as the argument of a builder or method, where `library` names the schema
library. -/
def schemaArg (library : List String) : Expr → SchemaArg
  | .object entries => .object (schemaEntries library entries)
  | .array items => .array (schemaArgs library items)
  | .literal text => .literal text
  | .name n => .schema (.ref n)
  | .call (.member receiver name) args =>
    match schemaArg library receiver with
    | .schema (.ref n) =>
      if library.contains n then .schema (.builder name (schemaArgs library args))
      else .schema (.method (.ref n) name (schemaArgs library args))
    | .schema s => .schema (.method s name (schemaArgs library args))
    | _ => .other
  | _ => .other

/-- Expressions as arguments. -/
def schemaArgs (library : List String) : List (Option Expr) → List SchemaArg
  | [] => []
  | some e :: rest => schemaArg library e :: schemaArgs library rest
  | none :: rest => .other :: schemaArgs library rest

/-- The properties of an object argument. -/
def schemaEntries (library : List String) : List Entry → List SchemaEntry
  | [] => []
  | ⟨key, value⟩ :: rest =>
    ⟨key, (schemaArg library value).schema?.getD .unknown⟩ :: schemaEntries library rest

end

/-- The schema that an expression builds, if it builds one. -/
def schemaOf? (library : List String) (e : Expr) : Option Schema := (schemaArg library e).schema?

/-! ## Declarations -/

/-- Adds an exported name that stands for itself. -/
def addExport (m : SourceModule) (exported : Bool) (name : String) : SourceModule :=
  if exported then { m with exports := m.exports.insert name name } else m

/-- Adds a value. -/
def addValue (m : SourceModule) (name : String) : SourceModule :=
  { m with values := addNew m.values name }

/-- Adds a variable. It is a schema if its value is rooted in the library, an earlier schema or an
earlier import. -/
def addVariable (library : List String) (exported : Bool) (m : SourceModule) :
    Option String × Option Expr → SourceModule
  | (none, _) => m
  | (some name, value?) =>
    let isSchema := fun n => m.schemas.contains n || m.imports.contains n
    let schemas := match value?.bind (schemaOf? library) with
      | some s => if s.isRooted isSchema then m.schemas.insert name s else m.schemas
      | none => m.schemas
    (({ m with schemas } : SourceModule).addExport exported name).addValue name

/-- Adds an interface to the one of its name, which keeps its type parameters. -/
def mergeInterface (m : SourceModule) (i : InterfaceDecl) : SourceModule :=
  let merged := match m.interfaces.find? i.name with
    | none => i
    | some first =>
      { first with
        members := first.members ++ i.members
        bases := first.bases ++ i.bases
        isOpaque := first.isOpaque || i.isOpaque }
  { m with interfaces := m.interfaces.insert i.name merged }

/-- Adds a declaration. -/
def addDeclaration (library : List String) (m : SourceModule) (exported : Bool) :
    Declaration → SourceModule
  | .values vars => vars.foldl (addVariable library exported) m
  | .function f =>
    (({ m with functions := m.functions ++ [f] } : SourceModule).addExport exported f.name).addValue
      f.name
  | .classLike name =>
    (({ m with opaqueTypes := addNew m.opaqueTypes name } : SourceModule).addExport exported
      name).addValue name
  | .typeAlias a => { m.addExport exported a.name with aliases := m.aliases.insert a.name a }
  | .interface i => (m.addExport exported i.name).mergeInterface i

/-- Adds a statement. -/
def addStatement (library : List String) (m : SourceModule) : Statement → SourceModule
  | .declare exported d => m.addDeclaration library exported d
  | .imports specifier items =>
    { m with
      imports := items.foldl (fun is item => is.insert item.name ⟨specifier, item.kind⟩) m.imports }
  | .exportNames names (some specifier) =>
    { m with
      reexports := m.reexports ++ names.map fun (inner, exported) =>
        .named exported inner specifier }
  | .exportNames names none =>
    { m with
      exports := names.foldl (fun es (inner, name) => es.insert name inner) m.exports }
  | .exportAll (some exported) specifier =>
    { m with reexports := m.reexports ++ [.wholeModule exported specifier] }
  | .exportAll none specifier => { m with reexports := m.reexports ++ [.all specifier] }
  | .exportDefaultFunction (some name) =>
    { m.addValue name with
      exports := m.exports.insert "default" name
      defaultFunctions := m.defaultFunctions ++ [name] }
  | .exportDefaultFunction none =>
    { m with defaultFunctions := m.defaultFunctions ++ ["default"] }
  | .other => m

/-- The module of some statements. -/
def ofStatements (path : Path) (statements : List Statement) : SourceModule :=
  statements.foldl (addStatement (schemaLibraryNames statements)) (empty path)

/-- The module in a source text, or none if the text cannot be read. The language goes by the
file's extension. -/
def parse? (path : Path) (source : String) : Option SourceModule :=
  (Source.statements? path.extension? source).map (ofStatements path)

end SourceModule

end IpcWiring
