import IpcWiring.Command.Options
import IpcWiring.Config.File

/-!
# Commands

What can be asked for on the command line: to generate the files of a project, to check them, to
show the working set, and to write a first configuration file.
-/

namespace IpcWiring

namespace Command

/-- What the command line says about a project. -/
structure ProjectArguments where
  config? : Option Path
  source? : Option Path
  filter? : Option String
  context? : Option Path
deriving Repr, Inhabited

/-- What the command line says instead of the configuration; its paths are meant from the working
directory. -/
def ProjectArguments.overrides (a : ProjectArguments) (workingDir : Path) (unwraps : Bool) :
    Config.Overrides :=
  { source? := a.source?.map workingDir.join
    filter? := a.filter?
    context? := a.context?.map workingDir.join
    unwrap? := if unwraps then some true else none }

end Command

/-- What is asked for. -/
inductive Command where
  | generate (project : Command.ProjectArguments) (watch dryRun unwraps : Bool)
  | check (project : Command.ProjectArguments)
  | inspect (project : Command.ProjectArguments) (events skipped : Bool)
  | init (output : Path) (force : Bool)
deriving Repr

namespace Command

/-- Why nothing can be done, or what is shown instead. -/
inductive Usage where
  | help
  | version
  /-- The arguments ask for nothing that there is. -/
  | invalid
deriving DecidableEq, Repr

/-! ## Known options -/

/-- Options that stand in front of a command or behind it. -/
def globalOptions : List OptionSpec :=
  [⟨"verbose", some 'v', .counter⟩, ⟨"quiet", some 'q', .flag⟩, ⟨"help", some 'h', .flag⟩]

/-- Options that stand in front of a command. -/
def topOptions : List OptionSpec := ⟨"version", some 'V', .flag⟩ :: globalOptions

/-- Options of the commands that read a project. -/
def projectOptions : List OptionSpec :=
  [⟨"config", some 'c', .path⟩, ⟨"source", some 's', .path⟩, ⟨"filter", none, .text⟩,
    ⟨"context", none, .path⟩] ++ globalOptions

/-- Options of `generate`. -/
def generateOptions : List OptionSpec :=
  [⟨"watch", some 'w', .flag⟩, ⟨"dry-run", none, .flag⟩, ⟨"unwrap", none, .flag⟩] ++
    projectOptions

/-- Options of `inspect`. -/
def inspectOptions : List OptionSpec :=
  [⟨"events", none, .flag⟩, ⟨"skipped", none, .flag⟩] ++ projectOptions

/-- Options of `init`. -/
def initOptions : List OptionSpec :=
  [⟨"output", some 'o', .path⟩, ⟨"force", none, .flag⟩] ++ globalOptions

/-! ## Reading -/

/-- Reads options together with the plain arguments behind them. -/
def readGroup (specs : List OptionSpec) (arguments : List String) :
    Except Usage (List OptionUse × List String) :=
  match readOptions? specs arguments with
  | some (uses, some plain) =>
    if OptionUse.isGiven uses "help" then .error .help
    else if OptionUse.isGiven uses "version" then .error .version
    else if !OptionUse.areSingle specs uses ||
        OptionUse.isGiven uses "quiet" && OptionUse.isGiven uses "verbose" then .error .invalid
    else .ok (uses, plain)
  | _ => .error .invalid

/-- Reads the options of a command, behind which nothing stands. -/
def readAll (specs : List OptionSpec) (arguments : List String) :
    Except Usage (List OptionUse) := do
  let (uses, plain) ← readGroup specs arguments
  if plain.isEmpty then return uses else throw .invalid

/-- What the options say about a project. -/
def projectArguments (uses : List OptionUse) : ProjectArguments :=
  { config? := (OptionUse.value? uses "config").map Path.mk
    source? := (OptionUse.value? uses "source").map Path.mk
    filter? := OptionUse.value? uses "filter"
    context? := (OptionUse.value? uses "context").map Path.mk }

/-- Reads a command by its name. -/
def ofName (name : String) (arguments : List String) : Except Usage Command := do
  match name with
  | "generate" =>
    let uses ← readAll generateOptions arguments
    let given := OptionUse.isGiven uses
    return .generate (projectArguments uses) (given "watch") (given "dry-run") (given "unwrap")
  | "check" => return .check (projectArguments (← readAll projectOptions arguments))
  | "inspect" =>
    let uses ← readAll inspectOptions arguments
    let given := OptionUse.isGiven uses
    return .inspect (projectArguments uses) (given "events") (given "skipped")
  | "init" =>
    let uses ← readAll initOptions arguments
    let output := (OptionUse.value? uses "output").getD Config.fileName
    return .init ⟨output⟩ (OptionUse.isGiven uses "force")
  | "help" => throw .help
  | _ => throw .invalid

/-- Reads the arguments of a command line. -/
def ofArguments (arguments : List String) : Except Usage Command := do
  match ← readGroup topOptions arguments with
  | (_, name :: rest) => ofName name rest
  | (_, []) => throw .invalid

end Command

end IpcWiring
