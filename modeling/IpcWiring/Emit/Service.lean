import IpcWiring.Emit.Layout
import IpcWiring.Emit.Name
import IpcWiring.Emit.Options
import IpcWiring.WorkingSet.Record

/-!
# The service

The service types the bridge for its callers and wraps it in a class. Each function has names for
its request, data and error types. A failure is returned, or thrown if results are unwrapped.
-/

namespace IpcWiring.Emit

/-- A method of the service. -/
structure ServiceMethod where
  name : String
  /-- What the names of its types start with. -/
  typeName : String
  /-- The type of the request, if there is one. -/
  requestType? : Option String
  /-- The functions whose answers are the errors; that of the function itself may decline. -/
  errorHandler? : Option String
  globalHandler? : Option String
deriving DecidableEq, Repr

namespace ServiceMethod

/-- The method for a function under a name for its types. -/
def of (o : Options) (f : ApiFunction) (typeName : String) : ServiceMethod :=
  { name := f.name
    typeName
    requestType? := if f.request.isEmpty then none else some (requestType f.request)
    errorHandler? := f.errorHandler?
    globalHandler? := o.globalHandler?.map (·.name) }

/-- The name of the request type. -/
def argsName (m : ServiceMethod) : String := m.typeName ++ "Args"

/-- The name of the data type. -/
def dataName (m : ServiceMethod) : String := m.typeName ++ "Data"

/-- The name of the error type. -/
def errorName (m : ServiceMethod) : String := m.typeName ++ "Error"

/-- What a call of a function comes to. -/
def awaited (function : String) : String := "Awaited<ReturnType<typeof " ++ function ++ ">>"

/-- The alternatives of the error type; nothing is known of errors without a handler. -/
def errorType (m : ServiceMethod) : String :=
  let parts := m.errorHandler?.toList.map (fun h => "NonNullable<" ++ awaited h ++ ">") ++
    m.globalHandler?.toList.map awaited
  if parts.isEmpty then "unknown" else Text.joinWith " | " parts

/-- Names a type. -/
def typeAlias (name type : String) : String := "export type " ++ name ++ " = " ++ type ++ ";"

/-- The names of the method's types. -/
def aliases (m : ServiceMethod) : List String :=
  "" :: m.requestType?.toList.map (typeAlias m.argsName) ++
    [typeAlias m.dataName (awaited m.name), typeAlias m.errorName m.errorType]

/-- The parameter of the method, if it has one. -/
def parameter (m : ServiceMethod) : String :=
  if m.requestType?.isSome then "args: " ++ m.argsName else ""

/-- The type of the answer. -/
def answerType (unwrapped : Bool) (m : ServiceMethod) : String :=
  if unwrapped then "Promise<" ++ m.dataName ++ ">"
  else "Promise<Result<" ++ m.dataName ++ ", " ++ m.errorName ++ ">>"

/-- The method with its types. -/
def signature (unwrapped : Bool) (m : ServiceMethod) : String :=
  m.name ++ "(" ++ m.parameter ++ "): " ++ m.answerType unwrapped

/-- The method of the class. -/
def lines (unwrapped : Bool) (m : ServiceMethod) : List String :=
  let call := "window.api." ++ m.name ++ "(" ++
    (if m.requestType?.isSome then "args" else "") ++ ");"
  if unwrapped then
    Text.block ("async " ++ m.signature true)
      (("const result = await " ++ call) ::
        Text.block "if (!result.ok)" ["throw result.error;"] "" ++
        ["return result.data;"]) ""
  else Text.block (m.signature false) ["return " ++ call] ""

end ServiceMethod

/-- The generated service. -/
structure ServiceModule where
  imports : ImportBlock
  methods : List ServiceMethod
  unwraps : Bool
deriving DecidableEq, Repr

namespace ServiceModule

/-- The imports that the method of a function asks for. -/
def requestsOf (dir : Path) : Path × ApiFunction → List ImportRequest
  | (path, f) =>
    .fileType dir path f.name ::
    f.errorHandler?.toList.map (ImportRequest.fileType dir path) ++
    f.typeImports.map (ImportRequest.ofType dir)

/-- The imports that the service asks for. -/
def requests (dir : Path) (o : Options) (functions : List (Path × ApiFunction)) :
    List ImportRequest :=
  if functions.isEmpty then [] else
    o.globalHandler?.toList.map (fun g => ImportRequest.fileType dir g.path g.name) ++
    functions.flatMap (requestsOf dir)

/-- The service in a directory. -/
def of (dir : Path) (o : Options) (records : List ApiRecord) : ServiceModule :=
  let functions := Record.placed records
  let typeNames := freshNames [] (functions.map fun (_, f) => f.name)
  { imports := .ofRequests (requests dir o functions)
    methods := functions.zipWith (fun (_, f) typeName => .of o f typeName) typeNames
    unwraps := o.unwraps }

/-- The service as it is written. -/
def text (m : ServiceModule) : String :=
  let table unwrapped := m.methods.map fun x => x.signature unwrapped ++ ";"
  fileText m.imports <|
    "export type Result<T, E> = \x7b ok: true; data: T \x7d | \x7b ok: false; error: E \x7d;" ::
    m.methods.flatMap ServiceMethod.aliases ++
    "" :: Text.blockOrEmpty "export interface IpcApi" (table false) "" ++
    "" :: windowField "api" "IpcApi" ++
    "" :: Text.blockOrEmpty "export interface ApiService" (table m.unwraps) "" ++
    "" :: Text.blockOrEmpty "export class ApiServiceImpl implements ApiService"
      (m.methods.flatMap (ServiceMethod.lines m.unwraps)) "" ++
    ["", "export const apiService: ApiService = new ApiServiceImpl();"]

end ServiceModule

end IpcWiring.Emit
