import IpcWiring.Emit.Layout
import IpcWiring.Emit.Name
import IpcWiring.WorkingSet.Record

/-!
# The bridge

The bridge exposes a table with one method per function. A method sends its request over the
function's channel.
-/

namespace IpcWiring.Emit

/-- How a method of the bridge takes the request. -/
inductive BridgeParameter where
  /-- There is no parameter, and the request is empty. -/
  | absent
  /-- The fields are taken apart and put together again. -/
  | fields (names : List String)
  /-- The request is passed on as it is. -/
  | whole
deriving DecidableEq, Repr

/-- A method of the bridge. -/
structure BridgeMethod where
  name : String
  /-- The channel that the request is sent over. -/
  channel : String
  parameter : BridgeParameter
  /-- The type of the request. -/
  requestType : String
deriving DecidableEq, Repr

namespace BridgeMethod

/-- The method for a function. -/
def of (f : ApiFunction) : BridgeMethod :=
  let names := f.request.map (·.name)
  let parameter := if names.isEmpty then .absent
    else if names.all isBindingName then .fields names
    else .whole
  ⟨f.name, f.name, parameter, Emit.requestType f.request⟩

/-- The keys of the request that the method sends are known to be these. -/
def sentKeys : BridgeMethod → List String
  | ⟨_, _, .fields names, _⟩ => names
  | _ => []

/-- The method as an arrow function. -/
def arrow (m : BridgeMethod) : String :=
  let call argument := "ipcRenderer.invoke('" ++ m.channel ++ "', " ++ argument ++ ")"
  match m.parameter with
  | .absent => "() => " ++ call "\x7b\x7d"
  | .fields names =>
    let object := "\x7b " ++ Text.joinWith ", " names ++ " \x7d"
    "(" ++ object ++ ": " ++ m.requestType ++ ") => " ++ call object
  | .whole => "(args: " ++ m.requestType ++ ") => " ++ call "args"

/-- The method as an entry of the table. -/
def text (m : BridgeMethod) : String := m.name ++ ": " ++ m.arrow ++ ","

end BridgeMethod

/-- The generated bridge. -/
structure BridgeModule where
  imports : ImportBlock
  methods : List BridgeMethod
deriving DecidableEq, Repr

namespace BridgeModule

/-- The imports that the bridge asks for. -/
def requests (dir : Path) (functions : List (Path × ApiFunction)) : List ImportRequest :=
  .moduleValue electron "contextBridge" :: functions.flatMap fun (_, f) =>
    .moduleValue electron "ipcRenderer" :: f.typeImports.map (ImportRequest.ofType dir)

/-- The bridge in a directory. -/
def of (dir : Path) (records : List ApiRecord) : BridgeModule :=
  let functions := Record.placed records
  ⟨.ofRequests (requests dir functions), functions.map fun (_, f) => .of f⟩

/-- The bridge as it is written. -/
def text (m : BridgeModule) : String :=
  fileText m.imports <|
    Text.blockOrEmpty "export const api =" (m.methods.map BridgeMethod.text) ";" ++
    ["", "export type Api = typeof api;", ""] ++
    Text.block "export function exposeApi(): void"
      ["contextBridge.exposeInMainWorld('api', api);"] ""

end BridgeModule

end IpcWiring.Emit
