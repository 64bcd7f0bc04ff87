import IpcWiring.Files.FilterPattern
import IpcWiring.Files.IgnoreRules
import IpcWiring.Files.Tree
import IpcWiring.Specifier

/-!
# Scanning for source files

A scanner finds the source files below a directory. It leaves out what a filter does not select,
what lies in an excluded directory, and what ignore files tell it to. Without the ignore files,
whether a file is found can be told by its path.
-/

namespace IpcWiring

/-! ## Ignored places -/

namespace FileTree

/-- The directories that a place lies in, the innermost one first. -/
def around (place : Place) : List Place :=
  ((List.range place.length).map place.take).reverse

/-- The rules of a file. -/
def rulesAt (t : FileTree) (place : Place) : List IgnoreRule :=
  match t.contentAt? place with
  | some content => IgnoreRules.parse content.toList
  | none => []

/-- A repository has its top in the directory. -/
def isRepository (t : FileTree) (dir : Place) : Bool := (t.entryAt? (dir ++ [".git"])).isSome

/-- The directories up to the top of the repository that they are in; none if they are in none. -/
def withinRepository (t : FileTree) : List Place → List Place
  | [] => []
  | dir :: outer =>
    if t.isRepository dir then [dir]
    else match t.withinRepository outer with
      | [] => []
      | dirs => dir :: dirs

/-- What the rules of one file in each of some directories say about a place; the innermost one that
says anything counts. -/
def verdictOf? (t : FileTree) (file : Place) (dirs : List Place) (place : Place)
    (isDirectory : Bool) : Option Bool :=
  dirs.findSome? fun dir =>
    let relative := Text.joinWith "/" (place.drop dir.length)
    IgnoreRules.verdict? (t.rulesAt (dir ++ file)) relative.toUTF8.toList isDirectory

/-- A place is to be ignored. General ignore files come first, then those of the repository. -/
def isIgnored (t : FileTree) (respectsGit : Bool) (place : Place) (isDirectory : Bool) : Bool :=
  let dirs := around place
  let gitDirs := if respectsGit then t.withinRepository dirs else []
  (((t.verdictOf? [".ignore"] dirs place isDirectory).or
    (t.verdictOf? [".gitignore"] gitDirs place isDirectory)).or
    (t.verdictOf? [".git", "info", "exclude"] gitDirs place isDirectory)).getD false

/-- Neither the file at a place nor a directory that leads to it from `root` is ignored. -/
def isReached (t : FileTree) (respectsGit : Bool) (root place : Place) : Bool :=
  !t.isIgnored respectsGit place false &&
    (around place).all fun dir => dir.length ≤ root.length || !t.isIgnored respectsGit dir true

end FileTree

/-! ## Scanners -/

/-- Why a directory cannot be scanned. -/
inductive ScanError where
  | directoryNotFound (path : Path)
deriving Repr

/-- The error in words. -/
def ScanError.message : ScanError → String
  | directoryNotFound path => "Directory not found: " ++ path.text

/-- What is looked for, and where. -/
structure Scanner where
  root : Path
  /-- The ignore files of repositories count. -/
  respectsGit : Bool
  /-- Selects files by their paths below the root. -/
  filter? : Option FilterPattern
  /-- The directories to leave out. -/
  excluded : List Path
deriving Repr

namespace Scanner

/-- The path below the root, or the path itself if it lies elsewhere. -/
def relativePath (s : Scanner) (p : Path) : Path := (Path.relativeTo? s.root p).getD p

/-- The path lies in a directory to leave out. -/
def isExcluded (s : Scanner) (p : Path) : Bool := s.excluded.any (·.isWithin p)

/-- A file at the path would be found, ignore files aside. -/
def accepts (s : Scanner) (p : Path) : Bool :=
  s.root.isWithin p && Specifier.isSourceFile p && !s.isExcluded p &&
    match s.filter? with
    | some filter => filter.isMatch (s.relativePath p).text
    | none => true

/-- The files below a directory that no ignore file hides, by their paths from `root`. -/
def reachedFiles (s : Scanner) (t : FileTree) (place : Place) : List Path :=
  t.files.filterMap fun (file, _) =>
    if place.isPrefixOf file && t.isReached s.respectsGit place file then
      some ((file.drop place.length).foldl (fun p name => p.join ⟨name⟩) s.root)
    else none

/-- The source files that are found, sorted. -/
def scan (s : Scanner) (t : FileTree) : Except ScanError (List Path) :=
  match t.locate s.root with
  | .ok place =>
    if t.isDirectoryAt place then
      .ok (((s.reachedFiles t place).filter s.accepts).mergeSort Path.le)
    else .error (.directoryNotFound s.root)
  | .error _ => .error (.directoryNotFound s.root)

end Scanner

end IpcWiring
