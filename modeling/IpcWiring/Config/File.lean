import IpcWiring.Config.Basic
import IpcWiring.Files.Tree
import IpcWiring.Toml.Document

/-!
# Configuration files

The sections of a configuration are tables of a TOML document. A section can also be written as an
array of its values in order. Keys that mean nothing are passed over, and a value of the wrong kind
makes the document invalid.
-/

namespace IpcWiring

namespace Toml.Value

/-! ## Fields of a section -/

/-- A field of a section by its position and its key, if it is given. A date is a section without
fields. -/
def field? (v : Value) (position : Nat) (key : String) : Option (Option Value) :=
  match v with
  | .table es => some (es.lookup key)
  | .array items => some items[position]?
  | .date _ => some none
  | _ => none

variable {α : Type}

/-- Reads a field, which has a default. -/
def fieldOr (v : Value) (position : Nat) (key : String) (read : Value → Option α) (fallback : α) :
    Option α := do
  match ← v.field? position key with
  | some x => read x
  | none => some fallback

/-- Reads a field that need not be given. -/
def optionalField (v : Value) (position : Nat) (key : String) (read : Value → Option α) :
    Option (Option α) :=
  v.fieldOr position key (fun x => (read x).map some) none

/-- Reads a field that has to be given. -/
def neededField (v : Value) (position : Nat) (key : String) (read : Value → Option α) :
    Option α := do
  read (← ← v.field? position key)

/-! ## Plain values -/

/-- A text. -/
def text? : Value → Option String
  | .string s => some s
  | _ => none

/-- A text that is a path. -/
def path? (v : Value) : Option Path := v.text?.map Path.mk

/-- A truth value. -/
def flag? : Value → Option Bool
  | .boolean b => some b
  | _ => none

/-- A list of texts. -/
def texts? : Value → Option (List String)
  | .array items => items.mapM text?
  | _ => none

end Toml.Value

namespace Config

open Toml.Value

/-! ## Sections -/

/-- Reads a `source` section. -/
def readSource (v : Toml.Value) : Option Source := do
  return ⟨← v.optionalField 0 "dir" path?, ← v.fieldOr 1 "ignore" texts? [],
    ← v.optionalField 2 "filter" text?⟩

/-- Reads a `context` section. -/
def readContext (v : Toml.Value) : Option Context := do
  return ⟨← v.optionalField 0 "path" path?, ← v.fieldOr 1 "name" text? Context.default.name⟩

/-- Reads an `output` section. -/
def readOutput (v : Toml.Value) : Option Output := do
  return ⟨← v.fieldOr 0 "preload_dir" path? Output.default.preloadDir,
    ← v.fieldOr 1 "main_dir" path? Output.default.mainDir,
    ← v.fieldOr 2 "renderer_dir" path? Output.default.rendererDir⟩

/-- Reads a handler for all errors. -/
def readHandler (v : Toml.Value) : Option Handler := do
  return ⟨← v.neededField 0 "path" path?, ← v.neededField 1 "function" text?,
    ← v.fieldOr 2 "debug" flag? false⟩

/-- Reads an `errors` section. -/
def readErrors (v : Toml.Value) : Option Errors := do
  return ⟨← v.optionalField 0 "global_handler" readHandler,
    ← v.fieldOr 1 "unwrap_results" flag? false⟩

/-- Reads a `naming` section. -/
def readNaming (v : Toml.Value) : Option Naming := do
  return ⟨← v.fieldOr 0 "validator" text? Naming.default.validator,
    ← v.fieldOr 1 "error_handler" text? Naming.default.errorHandler⟩

/-- Reads the companions that are declared for a function. -/
def readCompanions (v : Toml.Value) : Option CompanionPair := do
  return ⟨← v.optionalField 0 "validator" text?, ← v.optionalField 1 "error_handler" text?⟩

/-- Reads the companions of all functions. -/
def readAllCompanions : Toml.Value → Option (NameMap CompanionPair)
  | .table es => do return ⟨← es.mapM fun (name, v) => return (name, ← readCompanions v)⟩
  | _ => none

/-- Reads an `events` section. -/
def readEvents (v : Toml.Value) : Option Events := do
  return ⟨← v.optionalField 0 "dir" path?, ← v.optionalField 1 "sender_dir" path?,
    ← v.optionalField 2 "preload_dir" path?, ← v.optionalField 3 "renderer_dir" path?⟩

/-- Reads a configuration. -/
def ofValue? (v : Toml.Value) : Option Config := do
  return ⟨← v.fieldOr 0 "source" readSource .default,
    ← v.fieldOr 1 "context" readContext .default,
    ← v.fieldOr 2 "output" readOutput .default,
    ← v.fieldOr 3 "errors" readErrors .default,
    ← v.fieldOr 4 "naming" readNaming .default,
    ← v.fieldOr 5 "companions" readAllCompanions .empty,
    ← v.fieldOr 6 "events" readEvents .default⟩

/-- The configuration that a document gives, unless it is invalid. -/
def parse? (text : String) : Option Config := do
  ofValue? (.table (← Toml.parse? text))

/-! ## Loading -/

/-- The name of the file that is looked for by default. -/
def fileName : String := "ipcgen.toml"

/-- The configuration in a file, with the directory of the file. -/
def loadFile (t : FileTree) (workingDir path : Path) : Except ConfigError (Config × Path) := do
  let file := workingDir.join path
  let content ← (t.read file).mapError fun e => ConfigError.unreadable path e.text
  match String.fromUTF8? content with
  | none => throw (.unreadable path "stream did not contain valid UTF-8")
  | some text =>
    match parse? text with
    | none => throw (.invalidToml path)
    | some config => return (config, file.parent?.getD ⟨""⟩)

/-- The configuration in the file that is given, or in the one that is looked for by default, with
the directory that its paths are meant from. Only a file that is given has to be there. -/
def load (t : FileTree) (workingDir : Path) (path? : Option Path) :
    Except ConfigError (Config × Path) :=
  let path := path?.getD ⟨fileName⟩
  if t.contains (workingDir.join path) then loadFile t workingDir path
  else if path?.isSome then .error (.notFound path)
  else .ok (.default, workingDir)

end Config

end IpcWiring
