import IpcWiring.Command.Run

/-!
# The command line program

The files below the working directory are read, the command is run on them, and what it changed is
written back.
-/

namespace IpcWiring.Main

/-- Adds what directory entries hold to a tree. -/
partial def addEntries (t : FileTree) (entries : Array IO.FS.DirEntry) : IO FileTree := do
  let mut t := t
  for e in entries do
    let path : Path := ⟨e.path.toString⟩
    let place := path.components.map Component.text |>.drop 1
    if ← e.path.isDir then
      t ← addEntries (t.put place .directory) (← e.path.readDir)
    else
      t := t.put place (.file (← IO.FS.readBinFile e.path))
  return t

/-- The directories that a path leads through, all of them empty. -/
def emptyTree (workingDir : Path) : FileTree :=
  (FileTree.leadingPaths workingDir.components).foldr
    (fun p t => match t.makeDirectory p with
      | .ok t => t
      | .error _ => t) .empty

/-- Writes the files that a command changed. -/
def writeChanges (before after : FileTree) : IO Unit := do
  for (place, content) in after.files do
    if before.contentAt? place != some content then
      let path := FileTree.pathOf place
      if let some dir := path.parent? then IO.FS.createDirAll dir.text
      IO.FS.writeBinFile path.text content

/-- Runs a command line in the working directory. -/
def runInWorkingDir (arguments : List String) : IO Nat := do
  let dir ← IO.currentDir
  let workingDir : Path := ⟨dir.toString⟩
  let before ← addEntries (emptyTree workingDir) (← dir.readDir)
  let response := Command.runArguments before workingDir arguments
  IO.print response.output
  writeChanges before response.tree
  if let some problem := response.error? then IO.eprintln ("Error: " ++ problem)
  return response.code

end IpcWiring.Main

/-- Runs the command that the arguments ask for. -/
def main (arguments : List String) : IO UInt32 := do
  return (← IpcWiring.Main.runInWorkingDir arguments).toUInt32
