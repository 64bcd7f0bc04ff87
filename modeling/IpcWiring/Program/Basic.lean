import IpcWiring.SourceModule
import IpcWiring.Specifier

/-!
# Programs

A program is the set of source modules that some root files reach through relative imports.
`Program.load` follows the imports; each file is read once, and the number of files that were not
visited yet bounds the work.
-/

namespace IpcWiring

/-- The modules that were loaded, each under its normalized path, and the files that could not be
read, in order. -/
structure Program where
  modules : List SourceModule
  unreadable : List Path

namespace Program

/-! ## Loading -/

/-- A visited file with its module, if it has one. -/
structure Visit where
  path : Path
  module? : Option SourceModule

/-- The path was visited. -/
def isVisited (visits : List Visit) (p : Path) : Bool := visits.any (·.path == p)

/-- The files that were not visited. -/
def unvisited (files : List Path) (visits : List Visit) : List Path :=
  files.filter fun f => !isVisited visits f

/-- One more visit takes its file off the unvisited ones. -/
theorem unvisited_append (files : List Path) (visits : List Visit) (v : Visit) :
    unvisited files (visits ++ [v]) =
      (unvisited files visits).filter (fun f => !(v.path == f)) := by
  simp [unvisited, isVisited, List.filter_filter, Bool.and_comm]

/-- A visit to a new file leaves fewer files unvisited. -/
theorem length_unvisited_lt {files : List Path} {visits : List Visit} {v : Visit}
    (hfile : files.any (· == v.path)) (hnew : ¬ isVisited visits v.path) :
    (unvisited files (visits ++ [v])).length < (unvisited files visits).length := by
  obtain ⟨f, hf, heq⟩ := List.any_eq_true.1 hfile
  have hc := Path.beq_iff.1 heq
  rw [unvisited_append, List.length_filter_lt_length_iff_exists]
  refine ⟨f, List.mem_filter.2 ⟨hf, ?_⟩, ?_⟩
  · simpa [isVisited, Path.beq_eq_decide, hc] using hnew
  · simp [Path.beq_eq_decide, hc]

/-- Visits pending files and whatever they import, first come first served. Only what `files` holds
is followed. -/
def visit (files : List Path) (read : Path → Option SourceModule)
    (imported : SourceModule → List Path) (pending : List Path) (visits : List Visit) :
    List Visit :=
  match pending with
  | [] => visits
  | p :: rest =>
    if hold : isVisited visits p then visit files read imported rest visits
    else
      let v : Visit := ⟨p, read p⟩
      if hfile : files.any (· == p) then
        visit files read imported (rest ++ (v.module?.map imported).getD []) (visits ++ [v])
      else visit files read imported rest (visits ++ [v])
termination_by ((unvisited files visits).length, pending.length)
decreasing_by
  · exact Prod.Lex.right _ (by simp)
  · exact Prod.Lex.left _ _ (length_unvisited_lt hfile hold)
  · have hle : (unvisited files (visits ++ [v])).length ≤ (unvisited files visits).length := by
      rw [unvisited_append]; exact List.length_filter_le _ _
    rcases Nat.lt_or_eq_of_le hle with h | h
    · exact Prod.Lex.left _ _ h
    · rw [h]; exact Prod.Lex.right _ (by simp)

/-- The files that a module imports or exports from. -/
def importedFiles (isFile : Path → Bool) (m : SourceModule) : List Path :=
  m.dependencies.filterMap (Specifier.resolve isFile m.path)

/-- Loads root files with what they reach. `files` are the files that there are, and `read` reads
the module in one of them. -/
def load (files : List Path) (read : Path → Option SourceModule) (roots : List Path) : Program :=
  let isFile := fun p => files.any (· == p)
  let visits := visit files read (importedFiles isFile) (roots.map Path.normalize) []
  { modules := visits.filterMap (·.module?)
    unreadable := ((visits.filter (·.module?.isNone)).map (·.path)).mergeSort Path.le }

/-- The program of source texts that are given along with their paths; of two texts for one file the
later one counts. Imports lead only to these files. -/
def ofSources (sources : List (Path × String)) : Program :=
  let sources := sources.map fun (path, text) => (path.normalize, text)
  let read := fun path => (sources.reverse.find? (·.1 == path)).bind fun (_, text) =>
    SourceModule.parse? path text
  load (sources.map (·.1)) read (sources.map (·.1))

/-! ## Modules -/

/-- The module of a file. -/
def module? (p : Program) (file : Path) : Option SourceModule := p.modules.find? (·.path == file)

/-- The file has a module. -/
def isLoaded (p : Program) (file : Path) : Bool := p.modules.any (·.path == file)

/-- The file could not be read. -/
def isUnreadable (p : Program) (file : Path) : Bool := p.unreadable.any (· == file)

/-- The module that a specifier in a file names, by its path. -/
def targetOf (p : Program) (file : Path) (specifier : String) : Option Path :=
  Specifier.resolve p.isLoaded file specifier

end Program

end IpcWiring
