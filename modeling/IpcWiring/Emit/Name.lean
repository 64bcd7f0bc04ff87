import IpcWiring.Text.Braces
import IpcWiring.Text.Key
import IpcWiring.Text.Words
import IpcWiring.WorkingSet.Entry

/-!
# Names in generated code

How the name of a field is written as a key or behind an object, and how names for types and methods
are made from the names of functions and events, no two alike.
-/

namespace IpcWiring.Emit

/-! ## Keys and members -/

/-- Words that no binding can have as its name. -/
def reservedWords : List String :=
  ["break", "case", "catch", "class", "const", "continue", "debugger", "default", "delete",
    "do", "else", "enum", "export", "extends", "false", "finally", "for", "function", "if",
    "import", "in", "instanceof", "new", "null", "return", "super", "switch", "this", "throw",
    "true", "try", "typeof", "var", "void", "while", "with", "yield", "let", "static",
    "implements", "interface", "package", "private", "protected", "public", "await"]

/-- The name can be that of a binding. -/
def isBindingName (name : String) : Bool :=
  Text.isIdentifier name && !reservedWords.contains name

/-- The name in single quotes, with a backslash before each quote and backslash in it. -/
def quoted (name : String) : String :=
  "'" ++ Text.replaceAll "'" "\\'" (Text.replaceAll "\\" "\\\\" name) ++ "'"

/-- The key of a field. -/
def fieldKey (name : String) : String :=
  if isBindingName name || reservedWords.contains name then name else quoted name

/-- A field behind the object that has it. -/
def memberOf (object name : String) : String :=
  if isBindingName name then object ++ "." ++ name else object ++ "[" ++ quoted name ++ "]"

/-- The type of a request. -/
def requestType (fields : List RequestField) : String :=
  Text.braced (fields.map fun f =>
    fieldKey f.name ++ (if f.optional then "?" else "") ++ ": " ++ f.typeText)

/-! ## Distinct names -/

/-- The names to try for a base: the base itself, then the base with a number from 2 on. -/
def candidateNames (base : String) (count : Nat) : List String :=
  base :: (List.range' 2 count).map fun n => base ++ toString n

/-- The Pascal form of a name, or the first form of it with a number, that is not taken. -/
def freshName (taken : List String) (name : String) : String :=
  let base := Text.pascal name
  ((candidateNames base taken.length).find? (!taken.contains ·)).getD base

/-- Fresh names for a list of names, each one distinct from those before it. -/
def freshNames (taken : List String) : List String → List String
  | [] => []
  | name :: rest =>
    let fresh := freshName taken name
    fresh :: freshNames (fresh :: taken) rest

end IpcWiring.Emit
