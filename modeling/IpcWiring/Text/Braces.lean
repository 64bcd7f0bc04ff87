import IpcWiring.Text.Basic

/-!
# Texts in braces

Parts in braces on one line, and lines of code in braces.
-/

namespace IpcWiring.Text

/-- The parts of an object type in braces, on one line. -/
def braced (parts : List String) : String :=
  if parts.isEmpty then "\x7b\x7d" else "\x7b " ++ joinWith "; " parts ++ " \x7d"

/-- A head with lines in braces behind it, the lines indented. -/
def block (head : String) (inner : List String) (ending : String) : List String :=
  (head ++ " \x7b") :: inner.map ("  " ++ ·) ++ ["\x7d" ++ ending]

/-- A head with lines in braces behind it, or with empty braces if there are none. -/
def blockOrEmpty (head : String) (inner : List String) (ending : String) : List String :=
  if inner.isEmpty then [head ++ " \x7b\x7d" ++ ending] else block head inner ending

/-- The lines of a text, each one ended. -/
def unlines (lines : List String) : String := String.join (lines.map (· ++ "\n"))

end IpcWiring.Text
