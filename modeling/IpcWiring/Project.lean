import IpcWiring.Config.Basic
import IpcWiring.Emit.Artifact
import IpcWiring.Extract.Api
import IpcWiring.Files.Scanner

/-!
# Projects

A project is a configuration that was found valid, with all paths resolved. No two of its artifacts
go to the same file, and its scanners leave out the directories that artifacts go to, so that no
build reads what another one wrote.
-/

namespace IpcWiring

/-- The settings of a project. -/
structure Project where
  sourceDir : Path
  ignore : List String
  filter? : Option FilterPattern
  /-- The directory of events, if there are to be any. -/
  eventDir? : Option Path
  emit : Emit.Options
  naming : Config.Naming
  companions : NameMap CompanionPair

namespace Project

/-! ## Parts -/

/-- A naming pattern that is not blank. -/
def pattern? (text : String) : Option String := if (Text.trim text).isEmpty then none else some text

/-- What decides which functions are extracted and how. -/
def rules (p : Project) : ApiRules :=
  { contextName := p.emit.context.name
    ignore := p.ignore
    companions := ⟨⟨pattern? p.naming.validator, pattern? p.naming.errorHandler⟩, p.companions⟩ }

/-- All artifacts. -/
def artifacts : List Emit.Artifact := Emit.Artifact.ofFunctions ++ Emit.Artifact.ofEvents

/-- The artifacts that have a directory, with their paths. -/
def artifactPaths (o : Emit.Options) : List (Emit.Artifact × Path) :=
  artifacts.filterMap fun a => (a.path? o).map (a, ·)

/-- The directories that artifacts go to, each one once. -/
def outputDirs (p : Project) : List Path :=
  (artifacts.filterMap (·.dir? p.emit)).foldl addNew []

/-- Finds the files with functions. -/
def apiScanner (p : Project) : Scanner := ⟨p.sourceDir, true, p.filter?, p.outputDirs⟩

/-- Finds the files with events. -/
def eventScanner? (p : Project) : Option Scanner :=
  p.eventDir?.map fun dir => ⟨dir, true, none, p.outputDirs⟩

/-! ## Checking a configuration -/

/-- The value of a key that has to be given. -/
def needed {α : Type} (key : String) : Option α → Except ConfigError α
  | some a => .ok a
  | none => .error (.missingValue key)

/-- A text that must not be blank. -/
def checkFilled (key text : String) : Except ConfigError Unit :=
  if (Text.trim text).isEmpty then .error (.invalidValue key "must not be empty") else .ok ()

/-- The entry names a function of a file. -/
def isIgnoreEntry (entry : String) : Bool :=
  match Text.splitAtLast? '.' entry with
  | some (stem, name) => !stem.isEmpty && !name.isEmpty
  | none => false

/-- All entries name functions. -/
def checkIgnore (entries : List String) : Except ConfigError Unit :=
  match entries.find? fun e => !isIgnoreEntry e with
  | some e =>
    .error (.invalidValue "source.ignore"
      ("'" ++ e ++ "' is not of the form fileStem.functionName"))
  | none => .ok ()

/-- The filter pattern, if any. -/
def checkFilter : Option String → Except ConfigError (Option FilterPattern)
  | none => .ok none
  | some text =>
    match FilterPattern.parse? text with
    | some pattern => .ok (some pattern)
    | none => .error .invalidFilter

/-- No two artifacts go to the same file; `seen` are the ones before. -/
def checkDistinct (seen : List (Emit.Artifact × Path)) :
    List (Emit.Artifact × Path) → Except ConfigError Unit
  | [] => .ok ()
  | (a, path) :: rest =>
    match seen.find? (·.2 == path) with
    | some (other, _) =>
      .error (.invalidValue "output" ("the " ++ other.label ++ " and " ++ a.label ++
        " artifacts both write " ++ path.text))
    | none => checkDistinct (seen ++ [(a, path)]) rest

/-- A path of the configuration, resolved. -/
def resolve (base path : Path) : Path := (base.join path).normalize

/-- The handler for all errors, if there is one. -/
def checkHandler (base : Path) :
    Option Config.Handler → Except ConfigError (Option Emit.GlobalHandler)
  | none => .ok none
  | some h => do
    checkFilled "errors.global_handler.function" h.function
    return some ⟨resolve base h.path, h.function, h.debug⟩

/-- The directories for events, where there are to be any; those that are not given are the ones for
functions. -/
def eventDirs? (base : Path) (events : Config.Events) (dirs : Emit.ApiDirs) :
    Option Emit.EventDirs :=
  let dirOr := fun (dir? : Option Path) fallback => (dir?.map (resolve base)).getD fallback
  events.dir?.map fun _ =>
    ⟨dirOr events.senderDir? dirs.main, dirOr events.preloadDir? dirs.preload,
      dirOr events.rendererDir? dirs.renderer⟩

/-- The project of a configuration whose paths are meant from a directory, or the first fault. -/
def ofConfig (base : Path) (c : Config) : Except ConfigError Project := do
  let sourceDir ← needed "source.dir" c.source.dir?
  let contextPath ← needed "context.path" c.context.path?
  checkFilled "context.name" c.context.name
  checkIgnore c.source.ignore
  let filter? ← checkFilter c.source.filter?
  let globalHandler? ← checkHandler base c.errors.globalHandler?
  let dirs : Emit.ApiDirs := ⟨resolve base c.output.preloadDir, resolve base c.output.mainDir,
    resolve base c.output.rendererDir⟩
  let emit : Emit.Options := {
    dirs
    eventDirs? := eventDirs? base c.events dirs
    context := ⟨resolve base contextPath, c.context.name⟩
    globalHandler?
    unwraps := c.errors.unwrapResults }
  checkDistinct [] (artifactPaths emit)
  return {
    sourceDir := resolve base sourceDir
    ignore := c.source.ignore
    filter?
    eventDir? := c.events.dir?.map (resolve base)
    emit
    naming := c.naming
    companions := c.companions }

end Project

end IpcWiring
