import Mathlib.Data.List.Basic
import IpcWiring.Proofs.TypeText.Pass

/-!
# Reading type texts

`Phrase.parse` reads a type text from left to right: the first part of a phrase, then what it goes
on with, as long as that binds strongly enough for the place.
-/

namespace IpcWiring.TypeText

open IpcWiring.Text (startsIdentifier continuesIdentifier)

/-! ## Words, keys and suffixes -/

/-- Reads a word. -/
def readWord : List Char → Option (Word × List Char)
  | [] => none
  | c :: cs =>
    if h : startsIdentifier c = true then
      some (⟨c, cs.takeWhile continuesIdentifier, h, List.all_takeWhile⟩,
        cs.dropWhile continuesIdentifier)
    else none

/-- Reads a text in quotes. -/
def readQuoted : List Char → Option (Quoted × List Char)
  | [] => none
  | c :: cs =>
    let span := quotedSpan c cs
    let body := span.1.dropLast
    if h : (c == '\'' || c == '"' || c == '`') = true ∧ isClosed c body = true then
      some (⟨c, body, h.1, h.2⟩, span.2)
    else none

/-- Reads a key. -/
def readKey (cs : List Char) : Option (Key × List Char) :=
  match readWord cs with
  | some (w, rest) => some (.word w, rest)
  | none => (readQuoted cs).map fun (q, rest) => (.quoted q, rest)

/-- Reads a question mark, if there is one. -/
def readQuestion (cs : List Char) : Bool × List Char :=
  match cs.dropPrefix? ['?'] with
  | some rest => (true, rest)
  | none => (false, cs)

/-- Reads the words behind the dots of a qualified name; `fuel` bounds their number. -/
def readPath (fuel : Nat) (cs : List Char) : List Word × List Char :=
  match fuel, cs with
  | fuel + 1, '.' :: rest =>
    match readWord rest with
    | some (w, rest) =>
      let (path, rest) := readPath fuel rest
      (w :: path, rest)
    | none => ([], cs)
  | _, _ => ([], cs)

/-- What a type goes on with. -/
inductive Suffix where
  | array | optional | union | intersection | conditional

namespace Suffix

/-- How a suffix starts. -/
def mark : Suffix → List Char
  | array => ['[', ']']
  | optional => ['?']
  | union => [' ', '|', ' ']
  | intersection => [' ', '&', ' ']
  | conditional => ' ' :: Keyword.extends.word.chars ++ [' ']

/-- How strongly a type with the suffix binds. -/
def strength : Suffix → Nat
  | array | optional => 5
  | intersection => 3
  | union => 2
  | conditional => 0

/-- A type at a place may go on with the suffix. -/
def isAt (p : Place) : Suffix → Bool
  | optional => p == .element
  | s => p.takes s.strength

end Suffix

/-- Reads how a type at a place goes on. -/
def readSuffix (p : Place) (cs : List Char) : Option (Suffix × List Char) :=
  [.array, .optional, .union, .intersection, .conditional].findSome? fun s : Suffix =>
    if s.isAt p then (cs.dropPrefix? s.mark).map fun rest => (s, rest) else none

/-! ## Phrases -/

/-- Reads a phrase and says what is left. -/
abbrev Reader := List Char → Option (Phrase × List Char)

/-- Reads phrases and says what is left. -/
abbrev ListReader := List Char → Option (List Phrase × List Char)

/-- Reads phrases between brackets. -/
def readBracketed (opening closing : Char) (each : ListReader)
    (cs : List Char) : Option (List Phrase × List Char) := do
  let cs ← cs.dropPrefix? [opening]
  match cs.dropPrefix? [closing] with
  | some rest => some ([], rest)
  | none =>
    let (ts, rest) ← each cs
    let rest ← rest.dropPrefix? [closing]
    some (ts, rest)

/-- Reads type arguments or type parameters, if there are any. -/
def readAngled (each : ListReader) (cs : List Char) :
    Option (List Phrase × List Char) :=
  if cs.head? = some '<' then readBracketed '<' '>' each cs else some ([], cs)

/-- Reads the name of a parameter with its modifier. -/
def readParameterName (cs : List Char) : Option ((Modifier × Word) × List Char) :=
  match cs.dropPrefix? ['.', '.', '.'] with
  | some cs => do
    let (name, rest) ← readWord cs
    let rest ← rest.dropPrefix? [':', ' ']
    some ((.rest, name), rest)
  | none => do
    let (name, rest) ← readWord cs
    match rest.dropPrefix? ['?', ':', ' '] with
    | some rest => some ((.optional, name), rest)
    | none =>
      let rest ← rest.dropPrefix? [':', ' ']
      some ((.plain, name), rest)

/-- What stands behind an opening parenthesis are the parameters of a function, not a type. -/
def startsParameters (cs : List Char) : Bool :=
  cs.head? == some ')' || cs.head? == some '.' ||
    (readWord cs).any fun (_, rest) => rest.head? == some ':' || rest.head? == some '?'

section

variable (read : Place → Reader) (each : Place → Char → ListReader)

/-- Reads a type parameter of a method. -/
def readGeneric (cs : List Char) : Option (Phrase × List Char) := do
  let (name, rest) ← readWord cs
  match rest.dropPrefix? Suffix.conditional.mark with
  | none => some (.generic name, rest)
  | some rest =>
    let (constraint, rest) ← read .type rest
    some (.bounded name constraint, rest)

/-- Reads a parameter. -/
def readParameter (cs : List Char) : Option (Phrase × List Char) := do
  let ((modifier, name), rest) ← readParameterName cs
  let (type, rest) ← read .type rest
  some (.parameter modifier name type, rest)

/-- Reads what is behind the key of a property. -/
def readProperty (isReadonly : Bool) (key : Key) (cs : List Char) :
    Option (Phrase × List Char) := do
  let (isOptional, rest) := readQuestion cs
  let rest ← rest.dropPrefix? [':', ' ']
  let (type, rest) ← read .type rest
  some (.property isReadonly key isOptional type, rest)

/-- Reads what is behind the key of a method. -/
def readMethod (key : Key) (cs : List Char) : Option (Phrase × List Char) := do
  let (isOptional, rest) := readQuestion cs
  let (generics, rest) ← readAngled (each .generic ',') rest
  let (parameters, rest) ← readBracketed '(' ')' (each .parameter ',') rest
  let rest ← rest.dropPrefix? [':', ' ']
  let (result, rest) ← read .type rest
  some (.method key isOptional generics parameters result, rest)

/-- Reads a member of an object type. -/
def readMember (cs : List Char) : Option (Phrase × List Char) := do
  let (key, rest) ← readKey cs
  if rest.head? = some ' ' ∧ key = .word Keyword.readonly.word then
    let (key, rest) ← readKey rest.tail
    readProperty read true key rest
  else if (readQuestion rest).2.head? = some ':' then readProperty read false key rest
  else readMethod read each key rest

/-- Reads a type that starts with a parenthesis. -/
def readGroup (p : Place) (cs : List Char) : Option (Phrase × List Char) :=
  if startsParameters cs.tail then do
    let (parameters, rest) ← readBracketed '(' ')' (each .parameter ',') cs
    let rest ← rest.dropPrefix? [' ', '=', '>', ' ']
    let (result, rest) ← read p.result rest
    some (.function parameters result, rest)
  else do
    let (inner, rest) ← read .type cs.tail
    let rest ← rest.dropPrefix? [')']
    some (.paren inner, rest)

/-- Reads an object type. -/
def readObject (cs : List Char) : Option (Phrase × List Char) :=
  match cs.dropPrefix? ['\x7b', '\x7d'] with
  | some rest => some (.object [], rest)
  | none => do
    let cs ← cs.dropPrefix? ['\x7b', ' ']
    let (members, rest) ← each .member ';' cs
    let rest ← rest.dropPrefix? [' ', '\x7d']
    some (.object members, rest)

/-- Reads the rest of a tuple. -/
def readSpread (cs : List Char) : Option (Phrase × List Char) := do
  let cs ← cs.dropPrefix? ['.', '.', '.']
  let (elements, rest) ← read .type cs
  some (.spread elements, rest)

/-- Reads a type that starts with a word. -/
def readNamed (cs : List Char) : Option (Phrase × List Char) := do
  let (head, rest) ← readWord cs
  match operators.find? (·.word = head) with
  | some op =>
    if rest.head? = some ' ' then
      let (operand, rest) ← read .operand rest.tail
      some (.operator op operand, rest)
    else none
  | none =>
    let (path, rest) := readPath rest.length rest
    let (args, rest) ← readAngled (each .type ',') rest
    some (if path = [] ∧ args.isEmpty then .use head else .applied head path args, rest)

/-- Reads a type up to its first suffix. -/
def readType (p : Place) (cs : List Char) : Option (Phrase × List Char) :=
  if cs.head? = some '(' then readGroup read each p cs
  else if cs.head? = some '[' then
    (readBracketed '[' ']' (each .element ',') cs).map fun (ts, rest) => (.tuple ts, rest)
  else if cs.head? = some '\x7b' then readObject each cs
  else if cs.head? = some '.' then readSpread read cs
  else
    match readQuoted cs with
    | some (q, rest) => some (.quoted q, rest)
    | none => readNamed read each cs

/-- Reads a phrase up to its first suffix. -/
def readFirst (p : Place) (cs : List Char) : Option (Phrase × List Char) :=
  match p with
  | .generic => readGeneric read cs
  | .parameter => readParameter read cs
  | .member => readMember read each cs
  | _ => readType read each p cs

/-- Reads the part of a phrase that belongs to a suffix. -/
def readBehind (t : Phrase) (cs : List Char) : Suffix → Option (Phrase × List Char)
  | .array => some (.array t, cs)
  | .optional => some (.optional t, cs)
  | .union => (read .intersection cs).map fun (right, rest) => (.union t right, rest)
  | .intersection => (read .operand cs).map fun (right, rest) => (.intersection t right, rest)
  | .conditional => do
    let (extended, rest) ← read .extended cs
    let rest ← rest.dropPrefix? [' ', '?', ' ']
    let (positive, rest) ← read .type rest
    let rest ← rest.dropPrefix? [' ', ':', ' ']
    let (negative, rest) ← read .type rest
    some (.conditional t extended positive negative, rest)

end

mutual

/-- Reads a phrase at a place; `fuel` bounds the steps. -/
def readAt : Nat → Place → List Char → Option (Phrase × List Char)
  | 0, _, _ => none
  | fuel + 1, p, cs => do
    let (t, rest) ← readFirst (readAt fuel) (readEach fuel) p cs
    readOn fuel p t rest

/-- Reads what a phrase goes on with. -/
def readOn : Nat → Place → Phrase → List Char → Option (Phrase × List Char)
  | 0, _, _, _ => none
  | fuel + 1, p, t, cs =>
    match readSuffix p cs with
    | none => some (t, cs)
    | some (s, rest) => do
      let (t, rest) ← readBehind (readAt fuel) t rest s
      readOn fuel p t rest

/-- Reads phrases with marks and blanks between them. -/
def readEach : Nat → Place → Char → List Char → Option (List Phrase × List Char)
  | 0, _, _, _ => none
  | fuel + 1, p, sep, cs => do
    let (t, rest) ← readAt fuel p cs
    match rest.dropPrefix? [sep, ' '] with
    | none => some ([t], rest)
    | some rest =>
      let (ts, rest) ← readEach fuel p sep rest
      some (t :: ts, rest)

end

/-- Reads a type from the whole of a text. -/
def Phrase.parse (text : String) : Option Phrase :=
  match readAt (2 * text.length + 1) .type text.toList with
  | some (t, []) => some t
  | _ => none

end IpcWiring.TypeText
