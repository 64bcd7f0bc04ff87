import IpcWiring.Path

/-!
# Options of generated code

The directories that the generated files go to, and what they are given from outside: the type of
the context that a function is called with, and a handler for all errors.
-/

namespace IpcWiring.Emit

/-- A name that a file exports. -/
structure FileExport where
  path : Path
  name : String
deriving Repr, Inhabited

/-- The handler for errors that no handler of a function takes. -/
structure GlobalHandler where
  path : Path
  name : String
  /-- Each error is logged before it is handled. -/
  logs : Bool
deriving Repr, Inhabited

/-- The directories of the files that are made from functions. -/
structure ApiDirs where
  preload : Path
  main : Path
  renderer : Path
deriving Repr, Inhabited

/-- The directories of the files that are made from events. -/
structure EventDirs where
  sender : Path
  preload : Path
  renderer : Path
deriving Repr, Inhabited

/-- What generated code depends on besides functions and events. -/
structure Options where
  dirs : ApiDirs
  /-- The directories for events, if events are wanted. -/
  eventDirs? : Option EventDirs
  /-- The type of the context. -/
  context : FileExport
  globalHandler? : Option GlobalHandler
  /-- The methods of the service throw failures and do not return them. -/
  unwraps : Bool
deriving Repr, Inhabited

end IpcWiring.Emit
