import IpcWiring.Extract.Events
import IpcWiring.Files.Writer
import IpcWiring.Project

/-!
# Plans

A plan is what a build would write: the working set of all scanned files, and the files that are
generated from it. It is made from the file tree alone and changes nothing.
-/

namespace IpcWiring

/-- Why a build came to nothing. -/
inductive BuildError where
  | scan (e : ScanError)
  | write (e : WriteError)
  /-- Another build is going on. -/
  | busy
deriving Repr

/-- The error in words. -/
def BuildError.message : BuildError → String
  | scan e => "Failed to scan directory: " ++ e.message
  | write e => "Failed to write output: " ++ e.message
  | busy => "Build failed: Another build is already running"

/-- What a build would write, and what it found. -/
structure Plan where
  workingSet : WorkingSet
  files : List Emit.GeneratedFile
  skipped : List Skipped

namespace Plan

/-- The plan of a project without source files: nothing is generated. -/
def empty : Plan := ⟨.empty, [], []⟩

/-- The files to write, by path and text. -/
def outputs (plan : Plan) : List (Path × String) := plan.files.map fun f => (f.path, f.text)

end Plan

namespace Project

/-- The program that some files of a tree reach. -/
def program (t : FileTree) (roots : List Path) : Program :=
  let read := fun path => (t.readText? path).bind (SourceModule.parse? path)
  Program.load (t.files.flatMap fun (place, _) => FileTree.pathsOf place) read roots

/-- The functions of some files of a tree, in the place of the records that the files have among
`existing`. -/
def extractApi (p : Project) (t : FileTree) (paths : List Path) (existing : List ApiRecord) :
    Extraction ApiFunction :=
  IpcWiring.extractApi p.rules (program t paths) paths existing

/-- The events of some files of a tree. -/
def extractEvents (t : FileTree) (paths : List Path) : Extraction ApiEvent :=
  IpcWiring.extractEvents (program t paths) paths

/-- The events of all scanned files: none at all if events are not wanted or their directory is
missing. -/
def allEvents? (p : Project) (t : FileTree) : Option (Extraction ApiEvent) := do
  let scanner ← p.eventScanner?
  match scanner.scan t with
  | .ok paths => some (extractEvents t paths)
  | .error (.directoryNotFound _) => none

/-- The plan of a project on a file tree. -/
def plan (p : Project) (t : FileTree) : Except BuildError Plan := do
  let paths ← (p.apiScanner.scan t).mapError BuildError.scan
  if paths.isEmpty then return .empty
  let api := p.extractApi t paths []
  let events? := p.allEvents? t
  let workingSet := WorkingSet.sort ⟨api.records, events?.map (·.records)⟩
  return {
    workingSet
    files := Emit.generate p.emit workingSet
    skipped := api.skipped ++ (events?.map (·.skipped)).getD [] }

end Project

end IpcWiring
