import IpcWiring.Companions
import IpcWiring.Path

/-!
# Configuration

A configuration as it is written, with what holds where nothing is written. Paths are not resolved
yet; they are meant from the directory of the file.
-/

namespace IpcWiring

namespace Config

/-- Where functions are looked for. -/
structure Source where
  dir? : Option Path
  /-- The functions to leave out, each by the stem of its file, a dot and its name. -/
  ignore : List String
  /-- A pattern that selects files. -/
  filter? : Option String
deriving Inhabited

/-- The type of the context. -/
structure Context where
  path? : Option Path
  name : String
deriving Inhabited

/-- Where the files that are made from functions go. -/
structure Output where
  preloadDir : Path
  mainDir : Path
  rendererDir : Path
deriving Inhabited

/-- The handler for all errors. -/
structure Handler where
  path : Path
  function : String
  debug : Bool
deriving Inhabited

/-- What becomes of errors. -/
structure Errors where
  globalHandler? : Option Handler
  unwrapResults : Bool
deriving Inhabited

/-- The naming patterns for companions; a blank one finds none. -/
structure Naming where
  validator : String
  errorHandler : String
deriving Inhabited

/-- Where events are looked for, and where the files that are made from them go. -/
structure Events where
  dir? : Option Path
  senderDir? : Option Path
  preloadDir? : Option Path
  rendererDir? : Option Path
deriving Inhabited

/-- Nothing about functions. -/
def Source.default : Source := ⟨none, [], none⟩

/-- The name of the context type. -/
def Context.default : Context := ⟨none, "Context"⟩

/-- The usual directories. -/
def Output.default : Output := ⟨⟨"src/preload"⟩, ⟨"src/main/ipc"⟩, ⟨"src/renderer/ipc"⟩⟩

/-- Failures are returned as they are. -/
def Errors.default : Errors := ⟨none, false⟩

/-- The usual patterns. -/
def Naming.default : Naming :=
  let patterns := CompanionPair.defaultPatterns
  ⟨patterns.validator?.getD "", patterns.errorHandler?.getD ""⟩

/-- No events. -/
def Events.default : Events := ⟨none, none, none, none⟩

end Config

/-- A configuration. -/
structure Config where
  source : Config.Source
  context : Config.Context
  output : Config.Output
  errors : Config.Errors
  naming : Config.Naming
  /-- The companions that are declared for functions. -/
  companions : NameMap CompanionPair
  events : Config.Events
deriving Inhabited

namespace Config

/-- What holds without a configuration file. -/
def default : Config := ⟨.default, .default, .default, .default, .default, .empty, .default⟩

/-- What the command line says instead of the configuration file. -/
structure Overrides where
  source? : Option Path
  filter? : Option String
  context? : Option Path
  unwrap? : Option Bool
deriving Inhabited

/-- The command line says nothing. -/
def Overrides.none : Overrides := ⟨.none, .none, .none, .none⟩

/-- The configuration with what the command line says. -/
def override (c : Config) (o : Overrides) : Config :=
  { c with
    source := { c.source with
      dir? := o.source?.or c.source.dir?
      filter? := o.filter?.or c.source.filter? }
    context := { c.context with path? := o.context?.or c.context.path? }
    errors := { c.errors with unwrapResults := o.unwrap?.getD c.errors.unwrapResults } }

end Config

/-- Why there is no usable configuration. -/
inductive ConfigError where
  | notFound (path : Path)
  | unreadable (path : Path) (problem : String)
  | invalidToml (path : Path)
  | invalidFilter
  | invalidValue (key problem : String)
  | missingValue (key : String)
deriving Repr

/-- The error in words; what is wrong within a text is not told. -/
def ConfigError.message : ConfigError → String
  | notFound p => "Configuration file not found: " ++ p.text
  | unreadable p problem => "Failed to read config " ++ p.text ++ ": " ++ problem
  | invalidToml _ => "Invalid TOML"
  | invalidFilter => "Invalid configuration value for 'source.filter'"
  | invalidValue key problem => "Invalid configuration value for '" ++ key ++ "': " ++ problem
  | missingValue key => "Missing required configuration value '" ++ key ++ "'"

end IpcWiring
