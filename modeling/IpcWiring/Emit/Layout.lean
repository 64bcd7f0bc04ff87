import IpcWiring.Emit.ImportBlock

/-!
# Layout of generated files

A generated file is a notice, its imports and its lines of code.
-/

namespace IpcWiring.Emit

/-- The first line of every generated file. -/
def notice : String := "// auto generated by ipcgen, do not edit"

/-- The text of a generated file. -/
def fileText (imports : ImportBlock) (body : List String) : String :=
  notice ++ "\n\n" ++ imports.text ++ Text.unlines body

/-- The module that an application in several processes is built on. -/
def electron : String := "electron"

/-- Declares a field of the global window object. -/
def windowField (name type : String) : List String :=
  Text.block "declare global" (Text.block "interface Window" [name ++ ": " ++ type ++ ";"] "") ""

end IpcWiring.Emit
