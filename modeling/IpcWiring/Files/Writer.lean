import IpcWiring.Files.Tree

/-!
# Writing generated files

A file that has its text already is left alone, so that nobody who watches it sees a change. In a
dry run nothing is written at all.
-/

namespace IpcWiring

/-- What became of a file that was to be written. -/
inductive WriteResult where
  | written (path : Path) (bytes : Nat)
  /-- The file had its text already. -/
  | unchanged (path : Path)
  /-- The text would be written in another run. -/
  | dryRun (path : Path) (text : String)
deriving Repr

namespace WriteResult

/-- The path of the file. -/
def path : WriteResult → Path
  | written p _ | unchanged p | dryRun p _ => p

/-- The file was written. -/
def wasWritten : WriteResult → Bool
  | written .. => true
  | _ => false

/-- The number of bytes that were written. -/
def bytes : WriteResult → Nat
  | written _ n => n
  | _ => 0

end WriteResult

/-- Why a file could not be written. -/
inductive WriteError where
  | createDirectory (path : Path) (cause : SystemError)
  | writeFile (path : Path) (cause : SystemError)
deriving Repr

/-- The error in words. -/
def WriteError.message : WriteError → String
  | createDirectory p cause => "Failed to create directory " ++ p.text ++ ": " ++ cause.text
  | writeFile p cause => "Failed to write " ++ p.text ++ ": " ++ cause.text

namespace FileTree

/-- The file has exactly this text. -/
def isCurrent (t : FileTree) (p : Path) (text : String) : Bool :=
  match t.read p with
  | .ok content => content == text.toUTF8
  | .error _ => false

/-- The directory that a file is to stand in, if it is missing. -/
def missingParent? (t : FileTree) (p : Path) : Option Path :=
  p.parent?.filter fun dir => !t.contains dir

/-- Makes the directory that a file is to stand in, if it is missing. -/
def makeParent (t : FileTree) (p : Path) : Except WriteError FileTree :=
  match t.missingParent? p with
  | none => .ok t
  | some dir => (t.makeDirectories dir).mapError (.createDirectory dir)

end FileTree

/-- Why a file cannot be written though the tree allows it: a full disk, say. -/
structure Fault where
  cause : SystemError
  /-- What is left in the file, if it was opened before writing failed. -/
  left? : Option ByteArray

/-- How files are written. -/
structure Writer where
  /-- Nothing is written. -/
  dryRun : Bool
  /-- The directories that cannot be made for a reason that the tree does not show. -/
  directoryFault? : Path → Option SystemError
  /-- The files that cannot be written for a reason that the tree does not show. -/
  fileFault? : Path → Option Fault

namespace Writer

/-- Writes what is to be written, as far as the tree allows it. -/
def standard : Writer := ⟨false, fun _ => none, fun _ => none⟩

/-- Writes nothing. -/
def dry : Writer := ⟨true, fun _ => none, fun _ => none⟩

/-- The reason for which the directory that a file is to stand in cannot be made. -/
def parentFault? (w : Writer) (t : FileTree) (p : Path) : Option WriteError :=
  (t.missingParent? p).bind fun dir => (w.directoryFault? dir).map (.createDirectory dir)

/-- Makes the directory that a file is to stand in, if it is missing. -/
def makeParent (w : Writer) (t : FileTree) (p : Path) : Except WriteError FileTree :=
  match w.parentFault? t p with
  | some e => .error e
  | none => t.makeParent p

/-- Puts a text into a file, in a directory that is there. -/
def put (w : Writer) (t : FileTree) (p : Path) (text : String) :
    Except WriteError WriteResult × FileTree :=
  match w.fileFault? p with
  | some fault =>
    let left := fault.left?.bind fun content => (t.write p content).toOption
    (.error (.writeFile p fault.cause), left.getD t)
  | none =>
    match t.write p text.toUTF8 with
    | .error cause => (.error (.writeFile p cause), t)
    | .ok t => (.ok (.written p text.utf8ByteSize), t)

/-- Writes a file. -/
def write (w : Writer) (t : FileTree) (p : Path) (text : String) :
    Except WriteError WriteResult × FileTree :=
  if w.dryRun then (.ok (.dryRun p text), t)
  else if t.isCurrent p text then (.ok (.unchanged p), t)
  else match w.makeParent t p with
    | .error e => (.error e, t)
    | .ok t => w.put t p text

/-- Writes files one after another up to the first that cannot be written. -/
def writeAll (w : Writer) (t : FileTree) :
    List (Path × String) → Except WriteError (List WriteResult) × FileTree
  | [] => (.ok [], t)
  | (p, text) :: rest =>
    match w.write t p text with
    | (.error e, t) => (.error e, t)
    | (.ok result, t) =>
      let (results, t) := w.writeAll t rest
      (results.map (result :: ·), t)

end Writer

end IpcWiring
