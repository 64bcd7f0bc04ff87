import IpcWiring.Emit.Layout
import IpcWiring.Emit.Name
import IpcWiring.Emit.Options
import IpcWiring.WorkingSet.Record

/-!
# Handlers and their registration

A handler validates the request, calls the function and turns an error into a failure: the error
goes to the handler of the function first, then to the handler for all errors, and is the failure
itself if neither has an answer. The registration connects each handler to its channel.
-/

namespace IpcWiring.Emit

/-- The handler of a function takes the request. -/
def takesRequest (f : ApiFunction) : Bool := !f.request.isEmpty || f.validator?.isSome

/-! ## Handlers -/

/-- A generated handler. -/
structure Handler where
  name : String
  contextType : String
  /-- The type of the request, if the handler takes one. -/
  requestType? : Option String
  validator? : Option String
  /-- What the function is given behind the context. -/
  arguments : List ParamBinding
  errorHandler? : Option String
deriving DecidableEq, Repr

namespace Handler

/-- The handler for a function. -/
def of (contextType : String) (f : ApiFunction) : Handler :=
  { name := f.name
    contextType
    requestType? := if takesRequest f then some (requestType f.request) else none
    validator? := f.validator?
    arguments := f.bindings
    errorHandler? := f.errorHandler? }

/-- The variable that the arguments are read from: what a validator returns, or the request. -/
def bag (h : Handler) : String :=
  if h.validator?.isSome && !h.arguments.isEmpty then "input" else "args"

/-- An argument of the call, read from a variable. -/
def argument (bag : String) : ParamBinding → String
  | .bag => bag
  | .field name => memberOf bag name
  | .spread name => "...(" ++ memberOf bag name ++ " ?? [])"

/-- The line that validates the request. -/
def validation (h : Handler) : List String :=
  match h.validator? with
  | none => []
  | some v =>
    if h.arguments.isEmpty then ["await " ++ v ++ "(args);"]
    else ["const input = (await " ++ v ++ "(args)) as typeof args;"]

/-- The line that calls the function. -/
def call (h : Handler) : String :=
  let arguments := "ctx" :: h.arguments.map (argument h.bag)
  "return success(await " ++ h.name ++ "(" ++ Text.joinWith ", " arguments ++ "));"

/-- The line that turns an error into a failure. -/
def recovery (h : Handler) : String :=
  match h.errorHandler? with
  | some e => "return toFailure(error, " ++ e ++ ");"
  | none => "return toFailure(error);"

/-- The parameters of the handler. -/
def parameters (h : Handler) : String :=
  "ctx: " ++ h.contextType ++ match h.requestType? with
    | some type => ", args: " ++ type
    | none => ""

/-- The handler as an entry of the table. -/
def lines (h : Handler) : List String :=
  Text.block (h.name ++ ": async (" ++ h.parameters ++ ") =>")
    (Text.block "try" (h.validation ++ [h.call]) " catch (error) \x7b" ++
      ["  " ++ h.recovery, "\x7d"])
    ","

end Handler

/-- The generated handlers. -/
structure HandlersModule where
  imports : ImportBlock
  handlers : List Handler
  globalHandler? : Option GlobalHandler

namespace HandlersModule

/-- The imports that the handler of a function asks for. -/
def requestsOf (dir : Path) : Path × ApiFunction → List ImportRequest
  | (path, f) =>
    f.typeImports.map (ImportRequest.ofType dir) ++
    .fileValue dir path f.name ::
    (f.validator?.toList ++ f.errorHandler?.toList).map (ImportRequest.fileValue dir path)

/-- The imports that the handlers ask for. -/
def requests (dir : Path) (o : Options) (functions : List (Path × ApiFunction)) :
    List ImportRequest :=
  if functions.isEmpty then [] else
    .fileType dir o.context.path o.context.name ::
    o.globalHandler?.toList.map (fun g => ImportRequest.fileValue dir g.path g.name) ++
    functions.flatMap (requestsOf dir)

/-- The handlers in a directory. -/
def of (dir : Path) (o : Options) (records : List ApiRecord) : HandlersModule :=
  let functions := Record.placed records
  { imports := .ofRequests (requests dir o functions)
    handlers := functions.map fun (_, f) => .of o.context.name f
    globalHandler? := o.globalHandler? }

/-- The types of answers. -/
def resultTypes : List String :=
  ["export type Success<T> = \x7b ok: true; data: T \x7d;",
   "export type Failure<E> = \x7b ok: false; error: E \x7d;",
   "export type Result<T, E> = Success<T> | Failure<E>;"]

/-- The functions that make an answer. -/
def resultMakers : List String :=
  ["const success = <T>(data: T): Success<T> => (\x7b ok: true, data \x7d);",
   "const failure = <E>(error: E): Failure<E> => (\x7b ok: false, error \x7d);"]

/-- Tries to return a failure, and returns the error itself if that throws. -/
def tryFailure (attempt : List String) : List String :=
  Text.block "try" attempt " catch \x7b" ++ ["  return failure(error);", "\x7d"]

/-- What becomes of an error that the handler of the function does not take. -/
def lastFailure : Option GlobalHandler → List String
  | none => ["return failure(error);"]
  | some g =>
    (if g.logs then ["console.error(error);"] else []) ++
    tryFailure ["return failure(await " ++ g.name ++ "(error));"]

/-- The function that turns an error into a failure. -/
def toFailure (g? : Option GlobalHandler) : List String :=
  let handled := Text.block "if (handled !== null && handled !== undefined)"
    ["return failure(handled);"] ""
  ["async function toFailure(", "  error: unknown,",
   "  handler?: (error: any) => unknown,"] ++
  Text.block "): Promise<Failure<unknown>>"
    (Text.block "if (handler)"
      (tryFailure ("const handled = await handler(error);" :: handled)) "" ++
      lastFailure g?) ""

/-- The handlers as they are written. -/
def text (m : HandlersModule) : String :=
  let table := Text.blockOrEmpty "export const handlers =" (m.handlers.flatMap Handler.lines) ";"
  fileText m.imports <| resultTypes ++
    (if m.handlers.isEmpty then [] else "" :: resultMakers ++ "" :: toFailure m.globalHandler?) ++
    "" :: table

end HandlersModule

/-! ## Registration -/

/-- A channel with its handler. -/
structure Registration where
  channel : String
  handler : String
  /-- The request is passed on to the handler. -/
  passesRequest : Bool
deriving DecidableEq, Repr

namespace Registration

/-- The registration of a function. -/
def of (f : ApiFunction) : Registration := ⟨f.name, f.name, takesRequest f⟩

/-- The line that connects the channel. -/
def line (r : Registration) : String :=
  let call extra := "handlers." ++ r.handler ++ "(createContext(event)" ++ extra ++ ")"
  "ipcMain.handle('" ++ r.channel ++ "', " ++
    (if r.passesRequest then "(event, args) => " ++ call ", args" else "(event) => " ++ call "") ++
    ");"

/-- The line that disconnects the channel. -/
def removal (r : Registration) : String := "ipcMain.removeHandler('" ++ r.channel ++ "');"

end Registration

/-- The generated registration. -/
structure RegistrationModule where
  imports : ImportBlock
  contextType : String
  registrations : List Registration
deriving DecidableEq, Repr

namespace RegistrationModule

/-- The imports that the registration asks for; the handlers are in `handlersFile`. -/
def requests (dir handlersFile : Path) (o : Options) (functions : List (Path × ApiFunction)) :
    List ImportRequest :=
  let types := [.moduleType electron "IpcMainInvokeEvent",
    .fileType dir o.context.path o.context.name]
  if functions.isEmpty then types else
    .moduleValue electron "ipcMain" :: types ++ [.fileValue dir handlersFile "handlers"]

/-- The registration in a directory. -/
def of (dir handlersFile : Path) (o : Options) (records : List ApiRecord) : RegistrationModule :=
  let functions := Record.placed records
  { imports := .ofRequests (requests dir handlersFile o functions)
    contextType := o.context.name
    registrations := functions.map fun (_, f) => .of f }

/-- The registration as it is written. -/
def text (m : RegistrationModule) : String :=
  let createContext := if m.registrations.isEmpty then "_createContext" else "createContext"
  fileText m.imports <|
    Text.blockOrEmpty
      ("export function registerHandlers(" ++ createContext ++
        ": (event: IpcMainInvokeEvent) => " ++ m.contextType ++ "): void")
      (m.registrations.map Registration.line) "" ++
    "" :: Text.blockOrEmpty "export function unregisterHandlers(): void"
      (m.registrations.map Registration.removal) ""

end RegistrationModule

end IpcWiring.Emit
