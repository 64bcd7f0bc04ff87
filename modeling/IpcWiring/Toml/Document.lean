import IpcWiring.Toml.Draft
import IpcWiring.Toml.Quoted

/-!
# TOML documents

A document is a list of lines: headers, which open tables, and pairs, which add a value to the table
that was opened last. Arrays and tables within a value go over lines freely, and nest up to a limit.
-/

namespace IpcWiring.Toml

open Text

/-! ## Blanks and comments -/

/-- Blanks within a line. -/
def spaces : Scan Unit := discard (Scan.run isSpace)

/-- A comment up to the end of its line. -/
def comment : Scan Unit := do
  Scan.exactly ['#']
  discard (Scan.run fun c => !isControl c)

/-- Blanks, comments and line ends. -/
def gap : Scan Unit :=
  discard (Scan.many (discard (Scan.one isSpace) <|> newline <|> comment))

/-! ## Keys -/

/-- A character of a key without quotes. -/
def isKeyChar (c : Char) : Bool :=
  ('a' ≤ c && c ≤ 'z') || ('A' ≤ c && c ≤ 'Z') || c.isDigit || c == '-' || c == '_'

/-- One part of a key. -/
def keyPart : Scan String := do
  match ← Scan.peek? with
  | some '"' => basic
  | some '\'' => literal
  | _ =>
    let name ← Scan.run isKeyChar
    if name.isEmpty then failure else return String.ofList name

/-- A further part of a key. -/
def furtherKeyPart : Scan String := do
  spaces
  Scan.exactly ['.']
  spaces
  keyPart

/-- A key with the parts in front of its last dot. -/
def key : Scan (List String × String) := do
  let first ← keyPart
  let further ← Scan.many furtherKeyPart
  let parts := first :: further
  return (parts.dropLast, further.getLast?.getD first)

/-! ## Values -/

/-- A character of a word without quotes. -/
def isWordChar (c : Char) : Bool := isKeyChar c || c == '+' || c == '.' || c == ':'

/-- A word without quotes; a blank can stand between a day and a time. -/
def word : Scan (List Char) := do
  let first ← Scan.run isWordChar
  match ← Scan.ahead with
  | ' ' :: c :: _ =>
    if cutDay? first == some [] && c.isDigit then
      discard (Scan.one (· == ' '))
      return first ++ ' ' :: (← Scan.run isWordChar)
    else return first
  | _ => return first

/-- A value that is neither an array nor a table. -/
def scalar : Scan Value := do
  match ← Scan.peek? with
  | some '"' | some '\'' => return .string (← quotedText)
  | _ =>
    match word? (← word) with
    | some v => return v
    | none => failure

/-- An item with what surrounds it, and whether a comma follows it. -/
def itemWithComma {α : Type} (item : Scan α) : Scan (α × Bool) := do
  gap
  let a ← item
  gap
  let comma ← Scan.sees [',']
  if comma then Scan.exactly [',']
  return (a, comma)

/-- Items with commas between them; a comma can also follow the last one. -/
def separated {α : Type} (item : Scan α) : Scan (List α) := do
  let items ← Scan.many (itemWithComma item)
  gap
  if items.dropLast.all (·.2) then return items.map (·.1) else failure

/-- A key with its value. -/
def pair (value : Scan Value) : Scan (List String × String × Value) := do
  let (path, k) ← key
  spaces
  Scan.exactly ['=']
  spaces
  return (path, k, ← value)

/-- An array of values. -/
def array (value : Scan Value) : Scan Value := do
  Scan.exactly ['[']
  let items ← separated value
  Scan.exactly [']']
  return .array items

/-- A table within a value. -/
def inlineTable (value : Scan Value) : Scan Value := do
  Scan.exactly ['{']
  let pairs ← separated (pair value)
  Scan.exactly ['}']
  match pairs.foldlM (fun es (path, k, v) => Draft.addValue path k v es) [] with
  | some es => return .table (Draft.finishAll es)
  | none => failure

/-- A value in which arrays and tables nest up to a number of levels. -/
def value : Nat → Scan Value
  | 0 => scalar
  | levels + 1 => do
    match ← Scan.peek? with
    | some '[' => array (value levels)
    | some '{' => inlineTable (value levels)
    | _ => scalar

/-- The number of levels to which the values of a document nest. -/
def maxLevels : Nat := 80

/-! ## Lines -/

/-- A line of a document. -/
inductive Line where
  | blank
  | pair (path : List String) (key : String) (v : Value)
  /-- Opens a table. -/
  | header (path : List String) (key : String)
  /-- Opens one more table of a list. -/
  | itemHeader (path : List String) (key : String)

/-- The key of a header between brackets. -/
def headerKey (opening closing : List Char) : Scan (List String × String) := do
  Scan.exactly opening
  spaces
  let k ← key
  spaces
  Scan.exactly closing
  return k

/-- What a line says, without a comment. -/
def statement : Scan Line := do
  match ← Scan.ahead with
  | '[' :: '[' :: _ =>
    let (path, k) ← headerKey ['[', '['] [']', ']']
    return .itemHeader path k
  | '[' :: _ =>
    let (path, k) ← headerKey ['['] [']']
    return .header path k
  | [] | '#' :: _ | '\n' :: _ | '\r' :: _ => return .blank
  | _ =>
    let (path, k, v) ← pair (value maxLevels)
    return .pair path k v

/-- A line with its end. -/
def line : Scan Line := do
  spaces
  let s ← statement
  spaces
  comment <|> pure ()
  if (← Scan.ahead).isEmpty then return s
  newline
  return s

/-- The lines of a document; a byte order mark can stand in front of them. -/
def lines : Scan (List Line) := do
  Scan.exactly ['\uFEFF'] <|> pure ()
  Scan.many line

/-! ## Documents -/

/-- A document in the making: its entries, and the way to the table that is open. -/
structure Progress where
  drafts : Draft.Drafts
  header : List String

namespace Progress

/-- Takes one more line in. -/
def add (p : Progress) : Line → Option Progress
  | .blank => some p
  | .pair path k v => do
    return { p with drafts := ← Draft.addValueUnder p.header path k v p.drafts }
  | .header path k => do return ⟨← Draft.declare path k p.drafts, path ++ [k]⟩
  | .itemHeader path k => do return ⟨← Draft.declareItem path k p.drafts, path ++ [k]⟩

end Progress

/-- The entries of a document, unless it is none. -/
def parse? (s : String) : Option Entries := do
  let ls ← Scan.all? lines s
  let p ← ls.foldlM Progress.add ⟨[], []⟩
  return Draft.finishAll p.drafts

end IpcWiring.Toml
