import IpcWiring.Path

/-!
# File trees

A file tree holds files and directories below a root. A path is followed step by step: each step but
the last leads to a directory, and `..` leads to the directory above. What an operation finds in its
way is told by a `SystemError`.
-/

namespace IpcWiring

/-- Why the system refuses an operation on a path. -/
inductive SystemError where
  | notFound
  | alreadyExists
  | notADirectory
  | isADirectory
deriving DecidableEq, Repr

/-- The error in words, with its number. -/
def SystemError.text : SystemError → String
  | notFound => "No such file or directory (os error 2)"
  | alreadyExists => "File exists (os error 17)"
  | notADirectory => "Not a directory (os error 20)"
  | isADirectory => "Is a directory (os error 21)"

/-- The names that lead from the root to a place. -/
abbrev Place := List String

/-- What stands at a place. -/
inductive FileEntry where
  | directory
  | file (content : ByteArray)
deriving Inhabited

/-- The entries below the root, each at one place. -/
structure FileTree where
  entries : List (Place × FileEntry)
deriving Inhabited

namespace FileTree

/-- The tree with nothing below its root. -/
def empty : FileTree := ⟨[]⟩

/-! ## Entries -/

/-- What stands at a place; the root is a directory. -/
def entryAt? (t : FileTree) (place : Place) : Option FileEntry :=
  if place.isEmpty then some .directory else (t.entries.find? (·.1 == place)).map (·.2)

/-- A directory stands at the place. -/
def isDirectoryAt (t : FileTree) (place : Place) : Bool :=
  match t.entryAt? place with
  | some .directory => true
  | _ => false

/-- The content of the file at a place. -/
def contentAt? (t : FileTree) (place : Place) : Option ByteArray :=
  match t.entryAt? place with
  | some (.file content) => some content
  | _ => none

/-- Puts an entry at a place. -/
def put (t : FileTree) (place : Place) (e : FileEntry) : FileTree :=
  ⟨t.entries.filter (·.1 != place) ++ [(place, e)]⟩

/-- Drops what stands at a place and below it. -/
def drop (t : FileTree) (place : Place) : FileTree :=
  ⟨t.entries.filter fun e => !place.isPrefixOf e.1⟩

/-- The files with their places. -/
def files (t : FileTree) : List (Place × ByteArray) :=
  t.entries.filterMap fun (place, e) =>
    match e with
    | .file content => some (place, content)
    | .directory => none

/-! ## Following paths -/

/-- The path of a place. -/
def pathOf (place : Place) : Path := ⟨"/" ++ Text.joinWith "/" place⟩

/-- The resolved paths that lead to a place: a `..` at the root leads back to the root. -/
def pathsOf (place : Place) : List Path :=
  [pathOf place, ⟨"/../" ++ Text.joinWith "/" place⟩]

/-- Where the components of a path lead from a place. -/
def follow (t : FileTree) : Place → List Component → Except SystemError Place
  | place, [] => .ok place
  | place, c :: rest =>
    match c with
    | .root => t.follow [] rest
    | .here => t.follow place rest
    | .up =>
      if t.isDirectoryAt place then t.follow place.dropLast rest else .error .notADirectory
    | .name s =>
      match t.entryAt? place with
      | some .directory =>
        if (t.entryAt? (place ++ [s])).isSome then t.follow (place ++ [s]) rest
        else .error .notFound
      | some (.file _) => .error .notADirectory
      | none => .error .notFound

/-- The spelling of the path says that it leads to a directory. -/
def endsAsDirectory (p : Path) : Bool := Text.endsWith "/" p.text || Text.endsWith "/." p.text

/-- The place of an entry that is there. The empty path leads nowhere. -/
def locate (t : FileTree) (p : Path) : Except SystemError Place := do
  if p.components.isEmpty then .error .notFound
  let place ← t.follow [] p.components
  if endsAsDirectory p && !t.isDirectoryAt place then .error .notADirectory else .ok place

/-- Something is there. -/
def contains (t : FileTree) (p : Path) : Bool := (t.locate p).isOk

/-- A directory is there. -/
def isDirectory (t : FileTree) (p : Path) : Bool :=
  match t.locate p with
  | .ok place => t.isDirectoryAt place
  | .error _ => false

/-- Reads a file. -/
def read (t : FileTree) (p : Path) : Except SystemError ByteArray := do
  let place ← t.locate p
  match t.contentAt? place with
  | some content => .ok content
  | none => .error .isADirectory

/-- Reads a file as text, if it is one. -/
def readText? (t : FileTree) (p : Path) : Option String :=
  match t.read p with
  | .ok content => String.fromUTF8? content
  | .error _ => none

/-! ## Changing the tree -/

/-- The place where the last step of a path leads, whether something is there or not; all steps
before lead to directories. -/
def target (t : FileTree) (p : Path) : Except SystemError Place :=
  match p.components.getLast? with
  | some (.name s) => do
    let dir ← t.follow [] p.components.dropLast
    match t.entryAt? dir with
    | some .directory => .ok (dir ++ [s])
    | some (.file _) => .error .notADirectory
    | none => .error .notFound
  | _ => t.locate p

/-- Writes a file into a directory that is there. -/
def write (t : FileTree) (p : Path) (content : ByteArray) : Except SystemError FileTree := do
  let place ← t.target p
  if endsAsDirectory p || t.isDirectoryAt place then .error .isADirectory
  else .ok (t.put place (.file content))

/-- Makes a directory in a directory that is there. -/
def makeDirectory (t : FileTree) (p : Path) : Except SystemError FileTree := do
  let place ← t.target p
  if (t.entryAt? place).isSome then .error .alreadyExists
  else .ok (t.put place .directory)

/-- Makes the first of some directories, each one in the next. One that is there already is left as
it is, and what leads to one is made only where it is missing. -/
def makeFirst (t : FileTree) : List Path → Except SystemError FileTree
  | [] => .ok t
  | p :: outer =>
    let made := match t.makeDirectory p with
      | .error .notFound => do (← t.makeFirst outer).makeDirectory p
      | result => result
    match made with
    | .ok t => .ok t
    | .error e => if t.isDirectory p then .ok t else .error e

/-- The paths that lead to a place and to what is around it, the innermost one first. -/
def leadingPaths (cs : List Component) : List Path :=
  ((List.range cs.length).map fun n => Path.ofComponents (cs.take (n + 1))).reverse

/-- Makes a directory with all that leads to it. -/
def makeDirectories (t : FileTree) (p : Path) : Except SystemError FileTree :=
  t.makeFirst (leadingPaths p.components)

/-- Deletes a file, or a directory with all that is in it. -/
def delete (t : FileTree) (p : Path) : FileTree :=
  match t.locate p with
  | .ok place => t.drop place
  | .error _ => t

end FileTree

end IpcWiring
