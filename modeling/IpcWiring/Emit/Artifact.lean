import IpcWiring.Emit.Bridge
import IpcWiring.Emit.Events
import IpcWiring.Emit.Handlers
import IpcWiring.Emit.Service
import IpcWiring.WorkingSet.Basic

/-!
# Artifacts

The files that are generated from a working set: four for its functions and three for its events.
-/

namespace IpcWiring.Emit

/-- The kinds of generated files. -/
inductive Artifact where
  | bridge
  | handlers
  | registration
  | service
  | eventSender
  | preloadEvents
  | rendererEvents
deriving DecidableEq, Repr, Inhabited

namespace Artifact

/-- The artifacts that are made from functions. -/
def ofFunctions : List Artifact := [bridge, handlers, registration, service]

/-- The artifacts that are made from events. -/
def ofEvents : List Artifact := [eventSender, preloadEvents, rendererEvents]

/-- What messages call the artifact. -/
def label : Artifact → String
  | bridge => "bridge"
  | handlers => "handlers"
  | registration => "registration"
  | service => "service"
  | eventSender => "event sender"
  | preloadEvents => "preload events"
  | rendererEvents => "renderer events"

/-- The name of the artifact's file. -/
def fileName : Artifact → String
  | bridge | service => "api.ts"
  | handlers => "handlers.ts"
  | registration => "register.ts"
  | eventSender | preloadEvents | rendererEvents => "events.ts"

/-- The directory of an artifact, if the options have one for it. -/
def dir? (o : Options) : Artifact → Option Path
  | bridge => some o.dirs.preload
  | handlers | registration => some o.dirs.main
  | service => some o.dirs.renderer
  | eventSender => o.eventDirs?.map (·.sender)
  | preloadEvents => o.eventDirs?.map (·.preload)
  | rendererEvents => o.eventDirs?.map (·.renderer)

/-- The artifact's file in a directory. -/
def fileIn (dir : Path) (a : Artifact) : Path := dir.join ⟨a.fileName⟩

/-- The path of an artifact, if the options have a directory for it. -/
def path? (o : Options) (a : Artifact) : Option Path := (a.dir? o).map a.fileIn

/-- The text of an artifact in a directory. -/
def text (o : Options) (api : List ApiRecord) (events : List EventRecord) (dir : Path) :
    Artifact → String
  | bridge => (BridgeModule.of dir api).text
  | handlers => (HandlersModule.of dir o api).text
  | registration => (RegistrationModule.of dir (handlers.fileIn dir) o api).text
  | service => (ServiceModule.of dir o api).text
  | eventSender => (SenderModule.of dir events).text
  | preloadEvents => (SubscriptionsModule.of dir events).text
  | rendererEvents => (EventServiceModule.of dir events).text

end Artifact

/-- A generated file. -/
structure GeneratedFile where
  artifact : Artifact
  path : Path
  text : String
deriving Inhabited

/-- The artifacts of a working set: those of events only if it has a directory for them. -/
def artifactsOf (w : WorkingSet) : List Artifact :=
  Artifact.ofFunctions ++ if w.events?.isSome then Artifact.ofEvents else []

/-- The files that are generated from a working set. An artifact without a directory is left out. -/
def generate (o : Options) (w : WorkingSet) : List GeneratedFile :=
  (artifactsOf w).filterMap fun a =>
    (a.dir? o).map fun dir => ⟨a, a.fileIn dir, a.text o w.api w.events dir⟩

end IpcWiring.Emit
