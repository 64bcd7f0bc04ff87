import IpcWiring.Text.Letters
import IpcWiring.Text.Basic

/-!
# Property keys

How a property name is written as the key of an object type: as it is if it has the form of an
identifier, otherwise in single quotes.
-/

namespace IpcWiring.Text

/-- A character that may start an identifier. -/
def startsIdentifier (c : Char) : Bool := isAlphabetic c || c == '_' || c == '$'

/-- A character that may continue an identifier. -/
def continuesIdentifier (c : Char) : Bool := isAlphanumeric c || c == '_' || c == '$'

/-- The form of an identifier: a letter, `_` or `$`, then also digits. -/
def isIdentifier (name : String) : Bool :=
  match name.toList with
  | [] => false
  | c :: rest => startsIdentifier c && rest.all continuesIdentifier

/-- A quoted name, with a backslash before each quote in it. -/
def quoteName (name : String) : String :=
  "'" ++ replaceAll "'" "\\'" name ++ "'"

/-- The key that stands for a property name. -/
def propertyKey (name : String) : String :=
  if isIdentifier name then name else quoteName name

end IpcWiring.Text
