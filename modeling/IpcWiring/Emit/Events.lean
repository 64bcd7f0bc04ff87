import IpcWiring.Emit.Layout
import IpcWiring.Emit.Name
import IpcWiring.WorkingSet.Record

/-!
# Events

Three files carry an event: the sender pushes its payload over the event's channel, the table of
subscriptions listens to the channel, and the event service wraps that table in a class.
-/

namespace IpcWiring.Emit

/-! ## Payloads -/

/-- The type of an event's payload. -/
def payloadType (e : ApiEvent) : String :=
  if e.payloadImport?.isSome then e.payload else "Parameters<" ++ e.name ++ ">[0]"

/-- The import that the payload type of an event asks for: that of the type, or of the event. -/
def payloadRequest (dir : Path) : Path × ApiEvent → ImportRequest
  | (path, e) => match e.payloadImport? with
    | some i => .ofType dir i
    | none => .fileType dir path e.name

/-- A parameter that is called with a payload. -/
def listener (payload : String) : String := "(listener: (payload: " ++ payload ++ ") => void)"

/-- A channel with the type of what is sent over it. -/
structure EventChannel where
  name : String
  payload : String
deriving DecidableEq, Repr

/-- The channel of an event. -/
def EventChannel.of (e : ApiEvent) : EventChannel := ⟨e.name, payloadType e⟩

/-! ## The sender -/

/-- The generated sender. -/
structure SenderModule where
  imports : ImportBlock
  channels : List EventChannel
deriving DecidableEq, Repr

namespace SenderModule

/-- The sender in a directory. -/
def of (dir : Path) (records : List EventRecord) : SenderModule :=
  let events := Record.placed records
  ⟨.ofRequests (.moduleType electron "WebContents" :: events.map (payloadRequest dir)),
    events.map fun (_, e) => .of e⟩

/-- The method that sends over a channel. -/
def methodLines (c : EventChannel) : List String :=
  Text.block (c.name ++ ": (payload: " ++ c.payload ++ "): void =>")
    ["target.send('" ++ c.name ++ "', payload);"] ","

/-- The sender as it is written. -/
def text (m : SenderModule) : String :=
  let target := if m.channels.isEmpty then "_target" else "target"
  fileText m.imports <|
    Text.block ("export function createEventSender(" ++ target ++ ": WebContents)")
      (Text.blockOrEmpty "return" (m.channels.flatMap methodLines) ";") "" ++
    ["", "export type EventSender = ReturnType<typeof createEventSender>;"]

end SenderModule

/-! ## The table of subscriptions -/

/-- The generated table. A subscription returns a function that ends it. -/
structure SubscriptionsModule where
  imports : ImportBlock
  channels : List EventChannel
deriving DecidableEq, Repr

namespace SubscriptionsModule

/-- The imports that the table asks for. -/
def requests (dir : Path) (events : List (Path × ApiEvent)) : List ImportRequest :=
  .moduleValue electron "contextBridge" :: events.flatMap fun e =>
    [.moduleValue electron "ipcRenderer", .moduleType electron "IpcRendererEvent",
      payloadRequest dir e]

/-- The table in a directory. -/
def of (dir : Path) (records : List EventRecord) : SubscriptionsModule :=
  let events := Record.placed records
  ⟨.ofRequests (requests dir events), events.map fun (_, e) => .of e⟩

/-- The method that listens to a channel. -/
def methodLines (c : EventChannel) : List String :=
  Text.block (c.name ++ ": " ++ listener c.payload ++ ": (() => void) =>")
    (["const handler = (_event: IpcRendererEvent, payload: " ++ c.payload ++
        ") => listener(payload);",
      "ipcRenderer.on('" ++ c.name ++ "', handler);"] ++
      Text.block "return () =>" ["ipcRenderer.removeListener('" ++ c.name ++ "', handler);"] ";")
    ","

/-- The table as it is written. -/
def text (m : SubscriptionsModule) : String :=
  fileText m.imports <|
    Text.blockOrEmpty "export const events =" (m.channels.flatMap methodLines) ";" ++
    ["", "export type Events = typeof events;", ""] ++
    Text.block "export function exposeEvents(): void"
      ["contextBridge.exposeInMainWorld('events', events);"] ""

end SubscriptionsModule

/-! ## The event service -/

/-- A method of the event service. -/
structure ListenMethod where
  name : String
  channel : EventChannel
deriving DecidableEq, Repr

namespace ListenMethod

/-- The method's entry in a type. -/
def signature (name : String) (c : EventChannel) : String :=
  name ++ listener c.payload ++ ": () => void"

/-- The method of the class. -/
def lines (m : ListenMethod) : List String :=
  Text.block (signature m.name m.channel)
    ["return window.events." ++ m.channel.name ++ "(listener);"] ""

end ListenMethod

/-- The generated event service. -/
structure EventServiceModule where
  imports : ImportBlock
  methods : List ListenMethod
deriving DecidableEq, Repr

namespace EventServiceModule

/-- The event service in a directory. -/
def of (dir : Path) (records : List EventRecord) : EventServiceModule :=
  let events := Record.placed records
  let names := freshNames [] (events.map fun (_, e) => e.name)
  ⟨.ofRequests (events.map (payloadRequest dir)),
    events.zipWith (fun (_, e) name => ⟨"on" ++ name, .of e⟩) names⟩

/-- The event service as it is written. -/
def text (m : EventServiceModule) : String :=
  let table (name : ListenMethod → String) :=
    m.methods.map fun x => ListenMethod.signature (name x) x.channel ++ ";"
  fileText m.imports <|
    Text.blockOrEmpty "export interface IpcEvents" (table (·.channel.name)) "" ++
    "" :: windowField "events" "IpcEvents" ++
    "" :: Text.blockOrEmpty "export interface EventService" (table (·.name)) "" ++
    "" :: Text.blockOrEmpty "export class EventServiceImpl implements EventService"
      (m.methods.flatMap ListenMethod.lines) "" ++
    ["", "export const eventService: EventService = new EventServiceImpl();"]

end EventServiceModule

end IpcWiring.Emit
