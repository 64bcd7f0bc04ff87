import IpcWiring.Text.Scan
import IpcWiring.Toml.Number

/-!
# Quoted TOML texts

A text stands between double quotes, with escapes, or between single quotes, without. Three quotes
on each side let it go over lines.
-/

namespace IpcWiring.Toml

open Text

/-! ## Characters -/

/-- A character that no text or comment can hold: a control character other than the tab. -/
def isControl (c : Char) : Bool := (c.toNat < 0x20 && c != '\t') || c.toNat == 0x7F

/-- Blanks within a line. -/
def isSpace (c : Char) : Bool := c == ' ' || c == '\t'

/-- The end of a line. -/
def newline : Scan Unit := Scan.exactly ['\r', '\n'] <|> Scan.exactly ['\n']

/-- A character by its number, in so many digits of base sixteen. -/
def codePoint (digits : Nat) : Scan Char := do
  let code := (← Scan.ahead).take digits
  if code.length = digits && code.all isHexDigit then
    let n := numeral 16 code
    if n.isValidChar then
      modify (·.drop digits)
      return Char.ofNat n
  failure

/-- What stands behind the backslash of an escape. -/
def escape : Scan Char := do
  match ← Scan.one fun _ => true with
  | 'b' => return '\x08'
  | 't' => return '\t'
  | 'n' => return '\n'
  | 'f' => return '\x0c'
  | 'r' => return '\r'
  | 'e' => return '\x1b'
  | '"' => return '"'
  | '\\' => return '\\'
  | 'x' => codePoint 2
  | 'u' => codePoint 4
  | 'U' => codePoint 8
  | _ => failure

/-! ## Texts on one line -/

/-- A character between double quotes. -/
def basicChar : Scan Char :=
  (do Scan.exactly ['\\']; escape) <|> Scan.one fun c => c != '"' && c != '\\' && !isControl c

/-- A text between double quotes. -/
def basic : Scan String := do
  Scan.exactly ['"']
  let body ← Scan.many basicChar
  Scan.exactly ['"']
  return String.ofList body

/-- A text between single quotes. -/
def literal : Scan String := do
  Scan.exactly ['\'']
  let body ← Scan.run fun c => c != '\'' && !isControl c
  Scan.exactly ['\'']
  return String.ofList body

/-! ## Texts over lines -/

/-- One or two quotes that are part of a text which three end. -/
def innerQuotes (quote : Char) : Scan (List Char) := do
  let quotes ← Scan.run (· == quote)
  if quotes.length = 1 || quotes.length = 2 then return quotes else failure

/-- The quotes that end a text: three, with up to two in front that are part of it. -/
def lastQuotes (quote : Char) : Scan (List Char) := do
  let quotes ← Scan.run (· == quote)
  if 3 ≤ quotes.length && quotes.length ≤ 5 then return quotes.drop 3 else failure

/-- A backslash at the end of a line drops the blanks and line ends behind it. -/
def lineJoin : Scan (List Char) := do
  Scan.exactly ['\\']
  discard (Scan.run isSpace)
  newline
  discard (Scan.many (newline <|> discard (Scan.one isSpace)))
  return []

/-- A line end within a text is a line feed. -/
def innerNewline : Scan (List Char) := do newline; return ['\n']

/-- A text between three quotes on each side, made of `pieces`; a line end right at its start does
not count. -/
def long (quote : Char) (piece : Scan (List Char)) : Scan String := do
  Scan.exactly [quote, quote, quote]
  newline <|> pure ()
  let body ← Scan.many (innerQuotes quote <|> innerNewline <|> piece)
  let last ← lastQuotes quote
  return String.ofList (body.flatten ++ last)

/-- A text between three double quotes on each side. -/
def longBasic : Scan String :=
  long '"' (lineJoin <|> do return [← basicChar])

/-- A text between three single quotes on each side. -/
def longLiteral : Scan String :=
  long '\'' (do return [← Scan.one fun c => c != '\'' && !isControl c])

/-- A text in quotes. -/
def quotedText : Scan String := do
  if ← Scan.sees ['"', '"', '"'] then longBasic
  else if ← Scan.sees ['\'', '\'', '\''] then longLiteral
  else basic <|> literal

end IpcWiring.Toml
