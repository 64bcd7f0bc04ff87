import IpcWiring.Distinct
import IpcWiring.Script.Syntax
import IpcWiring.Script.Token

/-!
# Reading tokens

A reader takes tokens from a source and fails at a text that no reading continues. It also notes
every type name it passes and every type literal, so that a type can tell the names in it and be
written with its literals anew; a failed attempt leaves no notes.
-/

namespace IpcWiring.Script

/-- The language of a source, and what the place in the grammar allows. -/
structure Setting where
  /-- Types and type declarations are part of the language. -/
  typed : Bool
  /-- `<` starts an element where an expression is due. -/
  tagged : Bool
  /-- An `extends` behind a type does not start a conditional type. -/
  plainTypes : Bool := false
  /-- `in` is no operator, as at the head of a `for`. -/
  noIn : Bool := false
  /-- `await` is an operator. -/
  awaits : Bool := true
  /-- `yield` is an operator. -/
  yields : Bool := false
  /-- An arrow function may have a result type: it may not before the `:` of a conditional. -/
  arrowResult : Bool := true

/-- Where a reader stands, and what it noted. -/
structure Progress where
  /-- The token that is read next. -/
  current : Lexeme
  /-- The byte offset behind the token read last. -/
  lastStop : Nat
  /-- The type names passed, last one first. -/
  names : List TypeName
  /-- The outermost type literals passed, last one first. -/
  pieces : List Piece

/-- A reader of `α`. -/
abbrev Reader := ReaderT Setting (StateT Progress Option)

namespace Reader

variable {α β : Type}

/-- No reading goes on here. -/
def reject : Reader α := failure

/-- The token that is read next. -/
def peek : Reader Token := return (← get).current.token

/-- The lexeme that is read next. -/
def peekLexeme : Reader Lexeme := return (← get).current

/-- A line ended before the next token. -/
def onNewLine : Reader Bool := return (← get).current.onNewLine

/-- Goes past the next token, whatever it is. -/
def advance : Reader Unit :=
  modify fun p => { p with lastStop := p.current.after.pos, current := nextLexeme p.current.after }

/-- Puts another reading of the same characters in the place of the next token. -/
def replace (lexeme : Lexeme) : Reader Unit := modify fun p => { p with current := lexeme }

/-- Runs `r` and tells its result, if any, without going on. -/
def lookAhead (r : Reader α) : Reader (Option α) :=
  fun s p => some (((r.run s).run p).map (·.1), p)

/-- `r` would succeed and give true here. -/
def sees (r : Reader Bool) : Reader Bool := return (← lookAhead r).getD false

/-- Runs `r`, or stays where it is if `r` fails. -/
def attempt (r : Reader α) : Reader (Option α) :=
  fun s p => match (r.run s).run p with
    | some (a, q) => some (some a, q)
    | none => some (none, p)

/-- Rejects unless the condition holds. -/
def check (condition : Bool) : Reader Unit := if condition then pure () else reject

/-! ## Single tokens -/

/-- The next token is this mark. -/
def atMark (text : String) : Reader Bool := return (← peek) == .mark text

/-- The next token is this word. -/
def atWord (word : String) : Reader Bool := return (← peek) == .word word

/-- Goes past the mark if it is next, and tells whether it was. -/
def eatMark (text : String) : Reader Bool := do
  if ← atMark text then advance; return true else return false

/-- Goes past the word if it is next, and tells whether it was. -/
def eatWord (word : String) : Reader Bool := do
  if ← atWord word then advance; return true else return false

/-- Goes past the mark. -/
def expectMark (text : String) : Reader Unit := do check (← eatMark text)

/-- Goes past the word. -/
def expectWord (word : String) : Reader Unit := do check (← eatWord word)

/-- Joins a `>` with the marks that follow it without a gap to the longest operator. -/
def joinAngle : Reader Unit := do
  let l ← peekLexeme
  if l.token == .mark ">" then
    let joined := [">>>=", ">>=", ">>>", ">>", ">="].find? fun m => m.toList.isPrefixOf l.here.rest
    match joined with
    | some m => replace { l with token := .mark m, after := l.here.skip m.length }
    | none => pure ()

/-- Reads a `<` out of the mark `<<`. -/
def splitAngle : Reader Unit := do
  let l ← peekLexeme
  if l.token == .mark "<<" then
    replace { l with token := .mark "<", after := l.here.skip 1 }

/-! ## Names -/

/-- The words that are never names of bindings. -/
def reservedWords : List String :=
  ["break", "case", "catch", "class", "const", "continue", "debugger", "default", "delete", "do",
    "else", "enum", "export", "extends", "false", "finally", "for", "function", "if", "import",
    "in", "instanceof", "new", "null", "return", "super", "switch", "this", "throw", "true", "try",
    "typeof", "var", "void", "while", "with"]

/-- The token can name a binding. -/
def isBindingName : Token → Bool
  | .word w => !reservedWords.contains w
  | .escapedWord _ => true
  | _ => false

/-- The name that a token spells, if it is a word of any kind. -/
def wordOf? : Token → Option String
  | .word w => some w
  | .escapedWord w => some w
  | _ => none

/-- The next token can name a binding. -/
def atBindingName : Reader Bool := return isBindingName (← peek)

/-- The next token is a word of any kind. -/
def atAnyWord : Reader Bool := return (wordOf? (← peek)).isSome

/-- Reads a word of any kind. -/
def anyWord : Reader String := do
  match wordOf? (← peek) with
  | some w => advance; return w
  | none => reject

/-- Reads the name of a binding. -/
def bindingName : Reader String := do
  check (← atBindingName)
  anyWord

/-- Reads a string literal. -/
def stringLiteral : Reader String := do
  match ← peek with
  | .string value => advance; return value
  | _ => reject

/-- Ends a statement: with a semicolon, at the end of a block or source, or at a line break. -/
def endStatement : Reader Unit := do
  if ← eatMark ";" then return
  let l ← peekLexeme
  check (l.token == .mark "\x7d" || l.token == .stop || l.onNewLine)

/-! ## Repetition -/

/-- Runs `step` until it gives none, at most `n` times, and collects what it gave. -/
def collectUpTo (step : Reader (Option α)) : Nat → Reader (List α)
  | 0 => return []
  | n + 1 => do
    match ← step with
    | none => return []
    | some a => return a :: (← collectUpTo step n)

/-- Runs `step` until it gives none. Every step but the last reads a character, so as many steps
as characters are enough. -/
def collect (step : Reader (Option α)) : Reader (List α) := do
  collectUpTo step ((← get).current.here.rest.length + 1)

/-- Runs `step` on a value until it gives none, at most `n` times. -/
def growUpTo (step : α → Reader (Option α)) : Nat → α → Reader α
  | 0, a => return a
  | n + 1, a => do
    match ← step a with
    | none => return a
    | some b => growUpTo step n b

/-- Runs `step` on a value until it gives none. -/
def grow (step : α → Reader (Option α)) (a : α) : Reader α := do
  growUpTo step ((← get).current.here.rest.length + 1) a

/-- Reads items up to a mark that stays unread. -/
def untilMark (close : String) (item : Reader α) : Reader (List α) :=
  collect do
    if ← atMark close then return none
    return some (← item)

/-- Reads items with commas between them, and perhaps one behind the last, up to a mark that stays
unread. -/
def commaSeparated (close : String) (item : Reader α) : Reader (List α) :=
  collect do
    if ← atMark close then return none
    let a ← item
    if !(← atMark close) then expectMark ","
    return some a

/-- Reads items with commas between them, at least one. -/
def commaChain (item : Reader α) : Reader (List α) := do
  let first ← item
  let more ← collect do
    if ← eatMark "," then return some (← item)
    return none
  return first :: more

/-! ## Notes -/

/-- A place in a source, with how much was noted before it. -/
structure Mark where
  here : Cursor
  names : Nat
  pieces : Nat

/-- The place of the next token. -/
def mark : Reader Mark := do
  let p ← get
  return ⟨p.current.here, p.names.length, p.pieces.length⟩

/-- Notes a type name. -/
def noteName (name : TypeName) : Reader Unit :=
  modify fun p => { p with names := name :: p.names }

/-- The type names passed since a place, each one once. -/
def namesSince (m : Mark) : Reader (List TypeName) := do
  let names := (← get).names
  return appendNew [] (names.take (names.length - m.names)).reverse

/-- The text from a place up to the token read last, on one line, with its literals as noted. -/
def textSince (m : Mark) : Reader String := do
  let p ← get
  let pieces := (p.pieces.take (p.pieces.length - m.pieces)).reverse
  return String.ofList (normalizeChars (splice p.lastStop m.here.pos pieces m.here.rest))

/-- The text from a place up to the token read last, on one line. -/
def plainTextSince (m : Mark) : Reader String := do
  let p ← get
  return String.ofList (normalizeChars (splice p.lastStop m.here.pos [] m.here.rest))

/-- Notes the span since a place as a literal that is written as `text`, in place of the literals
noted inside it. -/
def noteLiteral (m : Mark) (text : String) : Reader Unit :=
  modify fun p =>
    { p with
      pieces := ⟨m.here.pos, p.lastStop, text⟩ :: p.pieces.drop (p.pieces.length - m.pieces) }

end Reader

end IpcWiring.Script
