import IpcWiring.Build.Session
import IpcWiring.Command.Basic
import IpcWiring.Config.Template
import IpcWiring.Report.WorkingSet

/-!
# Running commands

A command reads and changes a file tree and prints lines. What it printed stays printed when it
fails, and what it wrote stays written.
-/

namespace IpcWiring.Command

/-- Why a command failed. -/
inductive Failure where
  | config (e : ConfigError)
  | build (e : BuildError)
  /-- What was to be found in order is not. -/
  | validation (problem : String)
  | system (e : SystemError)
deriving Repr

namespace Failure

/-- The failure in words. -/
def message : Failure → String
  | config e => "Failed to load configuration: " ++ e.message
  | build e => e.message
  | validation problem => "Validation failed: " ++ problem
  | system e => "IO error: " ++ e.text

/-- The exit code: one of its own where only the state of the files is at fault. -/
def code : Failure → Nat
  | validation _ => 2
  | _ => 1

end Failure

/-- The exit code where the arguments are at fault. -/
def usageCode : Nat := 2

/-! ## The console -/

/-- The files that a command works on, and the lines that it printed, last one first. -/
structure Console where
  tree : FileTree
  printed : List String

/-- A part of a command, with the directory that it runs in. -/
abbrev Run := ReaderT Path (ExceptT Failure (StateM Console))

namespace Run

/-- Prints a line. -/
def say (line : String) : Run Unit :=
  modify fun c => { c with printed := line :: c.printed }

/-- Prints lines. -/
def sayAll (lines : List String) : Run Unit := lines.forM say

/-- The files. -/
def tree : Run FileTree := return (← get).tree

/-- Goes on with a result, or fails. -/
def check {ε α : Type} (wrap : ε → Failure) : Except ε α → Run α
  | .ok a => return a
  | .error e => throw (wrap e)

/-- The project that the arguments and the configuration describe. -/
def openProject (a : ProjectArguments) (unwraps : Bool) : Run Project := do
  let workingDir ← read
  let (config, base) ← check .config (Config.load (← tree) workingDir a.config?)
  check .config (Project.ofConfig base (config.override (a.overrides workingDir unwraps)))

/-! ## Generating -/

/-- What is said about the working set of a build. -/
def summary (plan : Plan) : List String :=
  if plan.files.isEmpty then ["No API source files found."]
  else
    let set := plan.workingSet
    ["  Found " ++ toString set.functionCount ++ " function(s) in " ++
      toString set.api.length ++ " file(s)"] ++
    (if set.events?.isSome then ["  Found " ++ toString set.eventCount ++ " event(s)"] else []) ++
    (if plan.skipped.isEmpty then []
      else ["  Skipped " ++ toString plan.skipped.length ++ " declaration(s), run with -v or `" ++
        "ipcgen inspect --skipped` for details"]) ++
    set.duplicateChannels.map fun name =>
      "Warning: channel '" ++ name ++ "' is declared more than once"

/-- A line between the text of a file and the rest. -/
def rule : String := String.ofList (List.replicate 60 '─')

/-- What is said about a file that was to be written. -/
def writeLines : WriteResult → List String
  | .written path bytes => ["✓ Written " ++ toString bytes ++ " bytes to " ++ path.text]
  | .unchanged path => ["· Unchanged " ++ path.text]
  | .dryRun path text => ["[dry-run] Would write to " ++ path.text ++ ":", rule, text, rule]

/-- Builds a project. -/
def build (p : Project) (w : Writer) : Run BuildOutput := do
  let (result, world) := p.build w ⟨.initial, ← tree⟩
  modify fun c => { c with tree := world.tree }
  check .build result

/-- Generates the files of a project. With `watch`, the first build before any change. -/
def generate (a : ProjectArguments) (watch dryRun unwraps : Bool) : Run Unit := do
  let p ← openProject a unwraps
  let w := if dryRun then Writer.dry else .standard
  if watch then
    say "Starting watch mode..."
    sayAll ((p.sourceDir :: p.eventDir?.toList).map fun dir => "  Watching: " ++ dir.text)
    sayAll ["  Press Ctrl+C to stop", ""]
    discard (build p w)
  else
    say ("Scanning " ++ p.sourceDir.text)
    let output ← build p w
    sayAll (summary output.plan)
    sayAll (output.writes.flatMap writeLines)

/-! ## Looking on -/

/-- Plans the build of a project. -/
def plan (a : ProjectArguments) : Run Plan := do
  let p ← openProject a false
  check .build (p.plan (← tree))

/-- Tells which generated files are out of date. -/
def checkFiles (a : ProjectArguments) : Run Unit := do
  say "Checking generated files..."
  let plan ← plan a
  let t ← tree
  let stale := plan.files.filter fun f => !t.isCurrent f.path f.text
  if stale.isEmpty then say "✓ Generated files are up-to-date"
  else
    sayAll (stale.map fun f => "✗ " ++ f.path.text ++ " (" ++ f.artifact.label ++ ")")
    say "  Run 'ipcgen generate' to update"
    throw (.validation (toString stale.length ++ " generated file(s) are out of date"))

/-- Shows the working set, with what was skipped if that is wanted. -/
def inspect (a : ProjectArguments) (events skipped : Bool) : Run Unit := do
  let plan ← plan a
  let set := if events then plan.workingSet else { plan.workingSet with events? := none }
  let more := if skipped then [("skipped", JsonValue.list Skipped.json plan.skipped)] else []
  say (JsonValue.object (set.jsonFields ++ more)).pretty

/-! ## Starting a project -/

/-- Writes a first configuration file. -/
def init (output : Path) (force : Bool) : Run Unit := do
  let path := (← read).join output
  let t ← tree
  if t.contains path && !force then
    say ("Error: Configuration file already exists: " ++ output.text)
    say "  Use --force to overwrite"
    throw (.validation "Configuration file already exists")
  let t ← check .system (t.write path Config.template.toUTF8)
  modify fun c => { c with tree := t }
  say ("✓ Created configuration file: " ++ output.text)

end Run

/-! ## Whole commands -/

/-- What a command comes to. -/
structure Response where
  tree : FileTree
  output : String
  error? : Option String
  code : Nat

/-- The steps of a command. -/
def steps : Command → Run Unit
  | .generate a watch dryRun unwraps => Run.generate a watch dryRun unwraps
  | .check a => Run.checkFiles a
  | .inspect a events skipped => Run.inspect a events skipped
  | .init output force => Run.init output force

/-- Runs a command in a directory. -/
def run (t : FileTree) (workingDir : Path) (c : Command) : Response :=
  let (result, console) := ((c.steps.run workingDir).run).run ⟨t, []⟩
  let output := String.join (console.printed.reverse.map (· ++ "\n"))
  match result with
  | .ok () => ⟨console.tree, output, none, 0⟩
  | .error e => ⟨console.tree, output, some e.message, e.code⟩

/-- How the commands are called. -/
def usageLines : List String :=
  ["Usage: ipcgen [-v | -q] <COMMAND> [OPTIONS]", "",
   "Commands:",
   "  generate  Generate the files of a project",
   "  check     Check that the generated files are up to date",
   "  inspect   Print the working set as JSON",
   "  init      Write a first configuration file"]

/-- Runs a command line in a directory. -/
def runArguments (t : FileTree) (workingDir : Path) (arguments : List String) : Response :=
  match ofArguments arguments with
  | .ok c => run t workingDir c
  | .error .help => ⟨t, Text.joinWith "\n" usageLines ++ "\n", none, 0⟩
  | .error .version => ⟨t, "ipcgen 0.1.0\n", none, 0⟩
  | .error .invalid => ⟨t, "", none, usageCode⟩

end IpcWiring.Command
