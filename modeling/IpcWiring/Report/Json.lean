import IpcWiring.Text.Basic

/-!
# JSON

The JSON values of reports and their text, on one line or over lines. The keys of an object are
written in the order of their code points.
-/

namespace IpcWiring

/-- A JSON value. All numbers of reports are natural. -/
inductive JsonValue where
  | null
  | bool (b : Bool)
  | number (n : Nat)
  | string (s : String)
  | array (items : List JsonValue)
  | object (fields : List (String × JsonValue))
deriving Repr, Inhabited

namespace JsonValue

/-! ## Texts -/

/-- A hexadecimal digit. -/
def hexDigit (n : Nat) : Char := (Nat.toDigits 16 n).headD '0'

/-- A character of a text in quotes. -/
def escapeChar (c : Char) : List Char :=
  if c = '"' then ['\\', '"']
  else if c = '\\' then ['\\', '\\']
  else if c = '\n' then ['\\', 'n']
  else if c = '\r' then ['\\', 'r']
  else if c = '\t' then ['\\', 't']
  else if c = '\x08' then ['\\', 'b']
  else if c = '\x0c' then ['\\', 'f']
  else if c.toNat < 0x20 then
    ['\\', 'u', '0', '0', hexDigit (c.toNat / 16), hexDigit (c.toNat % 16)]
  else [c]

/-- A text in quotes. -/
def quote (s : String) : String := "\"" ++ String.ofList (s.toList.flatMap escapeChar) ++ "\""

/-! ## Layout -/

/-- Parts between brackets, with commas between them, each on a line of its own. -/
def spread (opening closing indent : String) (parts : List String) : String :=
  if parts.isEmpty then opening ++ closing
  else opening ++ "\n" ++ Text.joinWith ",\n" (parts.map (indent ++ "  " ++ ·)) ++
    "\n" ++ indent ++ closing

/-- Puts a field in front of the first one with a greater key. -/
def insertField (f : String × String) : List (String × String) → List (String × String)
  | [] => [f]
  | g :: rest => if f.1 < g.1 then f :: g :: rest else g :: insertField f rest

/-- Sorts fields by their keys. -/
def sortFields (fields : List (String × String)) : List (String × String) :=
  fields.foldr insertField []

mutual

/-- The value over lines, behind so much indentation. -/
def prettyFrom (indent : String) : JsonValue → String
  | null => "null"
  | bool b => if b then "true" else "false"
  | number n => toString n
  | string s => quote s
  | array items => spread "[" "]" indent (prettyItems (indent ++ "  ") items)
  | object fields =>
    let parts := sortFields (prettyFields (indent ++ "  ") fields)
    spread "\x7b" "\x7d" indent (parts.map fun (key, text) => quote key ++ ": " ++ text)

/-- The items of an array over lines. -/
def prettyItems (indent : String) : List JsonValue → List String
  | [] => []
  | v :: rest => prettyFrom indent v :: prettyItems indent rest

/-- The fields of an object, with their values over lines. -/
def prettyFields (indent : String) : List (String × JsonValue) → List (String × String)
  | [] => []
  | (key, v) :: rest => (key, prettyFrom indent v) :: prettyFields indent rest

end

/-- The value over lines, with two blanks for each level. -/
def pretty (v : JsonValue) : String := prettyFrom "" v

/-! ## Building -/

/-- A list of values as an array. -/
def list {α : Type} (f : α → JsonValue) (xs : List α) : JsonValue := array (xs.map f)

/-- A value, or null. -/
def option {α : Type} (f : α → JsonValue) : Option α → JsonValue
  | some a => f a
  | none => null

/-- A field that is there only if it has a value. -/
def given {α : Type} (key : String) (f : α → JsonValue) (a? : Option α) :
    List (String × JsonValue) :=
  a?.toList.map fun a => (key, f a)

end JsonValue

end IpcWiring
