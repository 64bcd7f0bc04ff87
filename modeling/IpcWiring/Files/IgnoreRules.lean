import IpcWiring.Files.IgnorePattern
import IpcWiring.Text.Basic

/-!
# Ignore rules

An ignore file has one rule on a line. A rule ignores what its pattern matches, or keeps it if the
line starts with `!`; of all rules that match, the last one counts. A pattern without a separator
matches in every directory below that of the file.
-/

namespace IpcWiring

/-- A rule of an ignore file. -/
structure IgnoreRule where
  pattern : List IgnoreToken
  /-- What matches is not ignored after all. -/
  keeps : Bool
  /-- Only directories match. -/
  onlyDirectories : Bool
deriving Repr

namespace IgnoreRule

/-- A line without the blanks at its end, unless the last one is escaped. -/
def trimLine (line : List Char) : List Char :=
  if ['\\', ' '].isSuffixOf line then line else Text.trimEndChars line

/-- What a line says in front of its pattern: whether the rule keeps, and whether the pattern is
bound to the directory of the file. -/
def cutMarks (line : List Char) : Bool × Bool × List Char :=
  match line with
  | '\\' :: '!' :: rest => (false, false, '!' :: rest)
  | '\\' :: '#' :: rest => (false, false, '#' :: rest)
  | '!' :: '/' :: rest => (true, true, rest)
  | '!' :: rest => (true, false, rest)
  | '/' :: rest => (false, true, rest)
  | _ => (false, false, line)

/-- A pattern without the separator at its end, if it has one, and the escape in front of that. -/
def cutSeparator (pattern : List Char) : Bool × List Char :=
  match pattern.reverse with
  | '/' :: '\\' :: front => (true, front.reverse)
  | '/' :: front => (true, front.reverse)
  | _ => (false, pattern)

/-- The pattern for whole paths: one that is bound to no directory can match below any, and one that
ends in any directories matches only what is in them. -/
def spread (bound : Bool) (pattern : List Char) : List Char :=
  let pattern :=
    if bound || pattern.contains '/' || pattern == ['*', '*'] then pattern
    else '*' :: '*' :: '/' :: pattern
  if ['/', '*', '*'].isSuffixOf pattern then pattern ++ ['/', '*'] else pattern

/-- The rule on a line: none on an empty line, on a comment, and where the pattern is ill-formed. -/
def parse? (line : List Char) : Option IgnoreRule :=
  if line.head? == some '#' then none
  else
    let line := trimLine line
    if line.isEmpty then none
    else
      let (keeps, bound, rest) := cutMarks line
      let (onlyDirectories, rest) := cutSeparator rest
      (IgnorePattern.parse? (spread bound rest)).map fun pattern =>
        ⟨pattern, keeps, onlyDirectories⟩

/-- The rule is about the path. -/
def applies (r : IgnoreRule) (path : List UInt8) (isDirectory : Bool) : Bool :=
  (isDirectory || !r.onlyDirectories) && IgnorePattern.isMatch r.pattern path

end IgnoreRule

namespace IgnoreRules

/-- A line without the carriage return at its end. -/
def dropReturn (line : List Char) : List Char :=
  match line.reverse with
  | '\r' :: front => front.reverse
  | _ => line

/-- The byte at the end of a line. -/
def lineEnd : UInt8 := 10

/-- The lines up to the first one that is no text. -/
def textLines : List (List UInt8) → List (List Char)
  | [] => []
  | line :: rest =>
    match String.fromUTF8? ⟨line.toArray⟩ with
    | some text => text.toList :: textLines rest
    | none => []

/-- The lines without a byte order mark in front of the first one. -/
def dropMark : List (List Char) → List (List Char)
  | [] => []
  | line :: rest => line.dropWhile (· == '\uFEFF') :: rest

/-- The rules of an ignore file. -/
def parse (content : List UInt8) : List IgnoreRule :=
  (dropMark (textLines (Text.cutAt lineEnd content))).filterMap fun line =>
    IgnoreRule.parse? (dropReturn line)

/-- What the rules say about a path: to ignore it, to keep it, or nothing. -/
def verdict? (rules : List IgnoreRule) (path : List UInt8) (isDirectory : Bool) : Option Bool :=
  (rules.reverse.find? (·.applies path isDirectory)).map (!·.keeps)

end IgnoreRules

end IpcWiring
