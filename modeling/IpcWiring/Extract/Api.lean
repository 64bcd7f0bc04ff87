import IpcWiring.Companions
import IpcWiring.Extract.Skip
import IpcWiring.Program.Members

/-!
# Extracting functions

A function that is exported under its own name and takes the context first becomes an entry. The
parameters behind the context are flattened into the fields of one request: a parameter that has
members gives one field for each, any other one field; the first field of a name stays.
-/

namespace IpcWiring

open Script

/-- What decides which functions are extracted and how. -/
structure ApiRules where
  /-- The name of the context type. -/
  contextName : String
  /-- The functions to leave out, each by the stem of its file, a dot and its name. -/
  ignore : List String
  companions : CompanionRules

namespace ApiRules

/-- The names of the functions of a file that are to be left out. -/
def ignoredIn (rules : ApiRules) (path : Path) : List String :=
  match path.fileStem? with
  | none => []
  | some stem => rules.ignore.filterMap fun entry =>
    match Text.splitAtLast? '.' entry with
    | some (file, function) => if file == stem then some function else none
    | none => none

end ApiRules

/-! ## Flattening -/

/-- What the parameters passed so far give. -/
structure Flattened where
  request : List RequestField
  bindings : List ParamBinding
  /-- The local types that are named without being exported. -/
  unexported : List String

namespace Flattened

/-- No parameters. -/
def empty : Flattened := ⟨[], [], []⟩

/-- Adds a field unless its name is taken. -/
def addField (request : List RequestField) (f : RequestField) : List RequestField :=
  if request.any (·.name == f.name) then request else request ++ [f]

/-- Adds the fields of one parameter. -/
def add (a : Flattened) (fields : List RequestField) (unexported : List String)
    (binding : ParamBinding) : Flattened :=
  ⟨fields.foldl addField a.request, a.bindings ++ [binding], a.unexported ++ unexported⟩

end Flattened

/-- The field that a member of a parameter gives. -/
def memberField (optional : Bool) (m : MemberInfo) : RequestField :=
  .of (m.optional || optional) m.name m.type.text m.type.imports

/-- Renders the type of a parameter, or `fallback` if it has none. -/
def renderParam (p : Program) (path : Path) (param : Param) (fallback : String) : Rendered :=
  match param.type? with
  | some t => p.render path t
  | none => .plain fallback

/-- Adds the parameter at a position. A parameter without a name is called by its position. -/
def addParam (p : Program) (path : Path) (a : Flattened) (param : Param) (index : Nat) :
    Flattened :=
  let name := param.name?.getD ("arg" ++ toString index)
  if Grammar.isRest param then
    let r := renderParam p path param "any[]"
    a.add [.relaxed name r.text r.imports] r.unexported (.spread name)
  else match param.type?.bind (p.members? path) with
    | some members =>
      a.add (members.map (memberField param.optional)) (members.flatMap (·.type.unexported)) .bag
    | none =>
      let r := renderParam p path param "any"
      a.add [.of param.optional name r.text r.imports] r.unexported (.field name)

/-- Flattens the parameters of a function from the second one on. -/
def flatten (p : Program) (path : Path) (params : List Param) : Flattened :=
  (params.zipIdx.drop 1).foldl (fun a (param, index) => addParam p path a param index) .empty

/-! ## Functions -/

/-- The first parameter takes the context. -/
def checkContext (rules : ApiRules) (p : Program) (path : Path) (params : List Param) :
    Except SkipReason Unit :=
  match params with
  | [] => .error .noParameters
  | first :: _ =>
    match first.pattern, first.type? with
    | .name _, some t =>
      let found? := p.declaredName path t
      if found? == some rules.contextName then .ok ()
      else .error (.contextMismatch (found?.getD t.text))
    | _, _ => .error .unsupportedContextParameter

/-- The function is exported under its own name. -/
def checkExport (m : SourceModule) (name : String) : Except SkipReason Unit :=
  if m.exportsAsItself name then .ok ()
  else .error (if m.exports.find? "default" == some name then .defaultExport else .notExported)

/-- The entry of a function, or the first reason to skip it. `repeated` tells that its name was
declared before. -/
def apiFunction (rules : ApiRules) (p : Program) (m : SourceModule) (path : Path)
    (repeated : Bool) (f : FunctionDecl) : Except SkipReason ApiFunction := do
  if repeated then throw .overload
  checkExport m f.name
  if (rules.ignoredIn path).contains f.name then throw .ignored
  checkContext rules p path f.params
  let flat := flatten p path f.params
  match flat.unexported with
  | typeName :: _ => throw (.unexportedType typeName)
  | [] =>
    let companions := rules.companions.companionsOf f.name m.exportedNames
    return ⟨f.name, flat.request, flat.bindings, companions.validator?, companions.errorHandler?⟩

/-- Pairs each function with whether one of its name stands before it. -/
def markRepeated (seen : List String) : List FunctionDecl → List (Bool × FunctionDecl)
  | [] => []
  | f :: rest => (seen.contains f.name, f) :: markRepeated (f.name :: seen) rest

/-- The functions of a module, with what was skipped: default exports first, then the others in
order. -/
def apiFunctions (rules : ApiRules) (p : Program) (path : Path) (m : SourceModule) :
    List ApiFunction × List Skipped :=
  let defaults := m.defaultFunctions.map fun name => (⟨path, some name, .defaultExport⟩ : Skipped)
  let outcomes := (markRepeated [] m.functions).map fun (repeated, f) =>
    (f.name, apiFunction rules p m path repeated f)
  let (entries, skipped) := partitionOutcomes path outcomes
  (entries, defaults ++ skipped)

/-- The records of files, with what was skipped. A file without a module is skipped as a whole. -/
def extractFiles {α : Type} (p : Program) (extract : Path → SourceModule → List α × List Skipped)
    (paths : List Path) : Extraction α :=
  let outcomes := paths.map fun path =>
    match p.module? path with
    | none => (none, [(⟨path, none, .unreadableFile⟩ : Skipped)])
    | some m =>
      let (entries, skipped) := extract path m
      (some (⟨path, entries⟩ : Record α), skipped)
  ⟨outcomes.filterMap (·.1), outcomes.flatMap (·.2)⟩

/-- Extracts the functions of files of a program, in the place of the records that the files have
among `existing`. -/
def extractApi (rules : ApiRules) (p : Program) (paths : List Path) (existing : List ApiRecord) :
    Extraction ApiFunction :=
  let paths := paths.map Path.normalize
  let found := extractFiles p (apiFunctions rules p) paths
  { found with records := Record.merge existing paths found.records }

end IpcWiring
