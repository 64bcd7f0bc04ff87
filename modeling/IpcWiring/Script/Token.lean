import IpcWiring.Script.NameChar
import IpcWiring.Script.Number
import IpcWiring.Script.TypeText

/-!
# Tokens

A source is read token by token. A `Cursor` is the unread rest with its byte offset; a `Lexeme` is
a token with its span, the line break before it, and the cursors at both its ends, so that a reader
can look at the same characters again where the grammar gives them another meaning: a regular
expression, the rest of a template, or the text between tags.
-/

namespace IpcWiring.Script

/-- The unread rest of a source. -/
structure Cursor where
  rest : List Char
  /-- The byte offset at which the rest starts. -/
  pos : Nat
deriving Repr, Inhabited

namespace Cursor

/-- The cursor behind the first `n` characters. -/
def skip (c : Cursor) : Nat → Cursor
  | 0 => c
  | n + 1 =>
    match c.rest with
    | [] => c
    | ch :: rest => skip ⟨rest, c.pos + ch.utf8Size⟩ n

/-- The cursor behind the characters at the front that satisfy `p`. -/
def skipWhile (c : Cursor) (p : Char → Bool) : Cursor :=
  c.skip (c.rest.takeWhile p).length

end Cursor

/-- A token of a source. -/
inductive Token where
  /-- A name or a reserved word. -/
  | word (name : String)
  /-- A name written with an escape, which is no reserved word. -/
  | escapedWord (name : String)
  | privateName (name : String)
  /-- A string literal, by its value. -/
  | string (value : String)
  | number (literal : String)
  | bigint (literal : String)
  /-- A whole template without substitutions. -/
  | template
  /-- A piece of a template up to a substitution. -/
  | templateOpen
  /-- A regular expression. -/
  | regex
  | mark (text : String)
  /-- The end of the source, or a character that starts no token. -/
  | stop
deriving DecidableEq, Repr, Inhabited

/-- A token in its place. -/
structure Lexeme where
  token : Token
  /-- The cursor at the token's first character. -/
  here : Cursor
  /-- The cursor behind its last character. -/
  after : Cursor
  /-- A line break stands between the token and the one before it. -/
  onNewLine : Bool
deriving Inhabited

/-! ## Blanks and comments -/

/-- A character that ends a line. -/
def endsLine (c : Char) : Bool :=
  c == '\n' || c == '\r' || c.toNat == 0x2028 || c.toNat == 0x2029

/-- A blank character or one that ends a line. -/
def isGap (c : Char) : Bool :=
  Text.isBlank c || endsLine c || c.toNat == 0x200B || c.toNat == 0xFEFF

/-- The length of a block comment behind its opening, up to and with the closing; none if it is
not closed. -/
def blockCommentLength? : List Char → Option Nat
  | '*' :: '/' :: _ => some 2
  | _ :: rest => (blockCommentLength? rest).map (· + 1)
  | [] => none

/-- Skips blanks and comments. An open block comment reaches to the end. The flag tells whether a
line ended on the way. -/
def skipGaps : Nat → Cursor → Bool → Cursor × Bool
  | 0, c, seen => (c, seen)
  | fuel + 1, c, seen =>
    match c.rest with
    | '/' :: '/' :: _ => skipGaps fuel (c.skipWhile fun ch => !endsLine ch) seen
    | '/' :: '*' :: inner =>
      let n := (blockCommentLength? inner).getD inner.length
      skipGaps fuel (c.skip (n + 2)) (seen || (inner.take n).any endsLine)
    | ch :: _ => if isGap ch then skipGaps fuel (c.skip 1) (seen || endsLine ch) else (c, seen)
    | [] => (c, seen)

/-! ## Escapes -/

/-- A hexadecimal digit. -/
def isHexDigit (c : Char) : Bool :=
  c.isDigit || ('a' ≤ c && c ≤ 'f') || ('A' ≤ c && c ≤ 'F')

/-- The number that the first four characters write, if all of them are hexadecimal digits. -/
def codeUnit? (s : List Char) : Option Nat :=
  let digits := (s.take 4).takeWhile isHexDigit
  if digits.length == 4 then some (digitsValue 16 digits) else none

/-- Reads what follows `\u`: the code point, and the number of characters read. A malformed escape
has no code point and ends where it cannot go on. -/
def unicodeEscape : List Char → Option Nat × Nat
  | '{' :: rest =>
    let digits := rest.takeWhile isHexDigit
    let tooLarge := (List.range digits.length).find? fun k =>
      0x10FFFF < digitsValue 16 (digits.take (k + 1))
    match tooLarge with
    | some k => (none, k + 2)
    | none =>
      if !digits.isEmpty && rest[digits.length]? == some '}' then
        (some (digitsValue 16 digits), digits.length + 2)
      else (none, digits.length + 1)
  | rest =>
    match codeUnit? rest with
    | some code => (some code, 4)
    | none => (none, ((rest.take 4).takeWhile isHexDigit).length)

/-- Four hexadecimal digits. -/
def hexFour (n : Nat) : List Char :=
  let digits := Nat.toDigits 16 n
  List.replicate (4 - digits.length) '0' ++ digits

/-- A code point as text; half of a surrogate pair is written as the replacement character and its
four hexadecimal digits. -/
def codeText (n : Nat) : List Char :=
  if 0xD800 ≤ n && n ≤ 0xDFFF then Char.ofNat 0xFFFD :: hexFour n else [Char.ofNat n]

/-- What an escape stands for, and how many characters it has behind the backslash. A line break
behind the backslash stands for nothing, and so does a malformed escape. -/
def escape : List Char → List Char × Nat
  | [] => ([], 0)
  | 'n' :: _ => (['\n'], 1)
  | 't' :: _ => (['\t'], 1)
  | 'r' :: _ => (['\r'], 1)
  | 'b' :: _ => ([Char.ofNat 8], 1)
  | 'f' :: _ => ([Char.ofNat 12], 1)
  | 'v' :: _ => ([Char.ofNat 11], 1)
  | '\r' :: '\n' :: _ => ([], 2)
  | 'x' :: rest =>
    let digits := (rest.take 2).takeWhile isHexDigit
    (if digits.length == 2 then [Char.ofNat (digitsValue 16 digits)] else [], digits.length + 1)
  | 'u' :: rest =>
    match unicodeEscape rest with
    | (none, n) => ([], n + 1)
    | (some high, n) =>
      match rest.drop n with
      | '\\' :: 'u' :: more =>
        match codeUnit? more with
        | some low =>
          if n == 4 && 0xD800 ≤ high && high ≤ 0xDBFF && 0xDC00 ≤ low && low ≤ 0xDFFF then
            ([Char.ofNat (0x10000 + (high - 0xD800) * 0x400 + (low - 0xDC00))], 11)
          else (codeText high, n + 1)
        | none => (codeText high, n + 1)
      | _ => (codeText high, n + 1)
  | c :: rest =>
    if endsLine c then ([], 1)
    else if '0' ≤ c && c ≤ '7' then
      let few := if c ≤ '3' then 3 else 2
      let digits := ((c :: rest).take few).takeWhile fun d => '0' ≤ d && d ≤ '7'
      ([Char.ofNat (digitsValue 8 digits)], digits.length)
    else ([c], 1)

/-! ## Literals -/

/-- Reads a string behind its opening quote, up to and with the closing one: its value and its
length. None if it is not closed on its line. The first `skip` characters were already read. -/
def stringBody? (quote : Char) (skip : Nat) : List Char → Option (List Char × Nat)
  | [] => none
  | c :: rest =>
    match skip with
    | n + 1 => (stringBody? quote n rest).map fun (v, k) => (v, k + 1)
    | 0 =>
      if c == quote then some ([], 1)
      else if c == '\n' || c == '\r' then none
      else if c == '\\' then
        let (text, n) := escape rest
        (stringBody? quote n rest).map fun (v, k) => (text ++ v, k + 1)
      else (stringBody? quote 0 rest).map fun (v, k) => (c :: v, k + 1)

/-- Reads a template up to a closing backquote or a substitution: the length, and whether the
template is closed. -/
def templateBody? : List Char → Option (Nat × Bool)
  | [] => none
  | '`' :: _ => some (1, true)
  | '$' :: '{' :: _ => some (2, false)
  | '\\' :: _ :: rest => (templateBody? rest).map fun (n, closed) => (n + 2, closed)
  | _ :: rest => (templateBody? rest).map fun (n, closed) => (n + 1, closed)

/-- The length of a regular expression behind its opening slash, up to and with the closing one;
none if it is not closed on its line. -/
def regexBody? (inClass : Bool) : List Char → Option Nat
  | [] => none
  | '\\' :: c :: rest =>
    if endsLine c then none else (regexBody? inClass rest).map (· + 2)
  | c :: rest =>
    if endsLine c then none
    else if c == '/' && !inClass then some 1
    else
      let inside := if c == '[' then true else if c == ']' then false else inClass
      (regexBody? inside rest).map (· + 1)

/-- The length of a run of digits and separators. -/
def digitsLength (isDigit : Char → Bool) (s : List Char) : Nat :=
  (s.takeWhile fun c => isDigit c || c == '_').length

/-- The length of an exponent part, if the text starts with one. -/
def exponentLength : List Char → Nat
  | e :: rest =>
    if e == 'e' || e == 'E' then
      let sign := match rest with
        | '+' :: _ => 1
        | '-' :: _ => 1
        | _ => 0
      match digitsLength Char.isDigit (rest.drop sign) with
      | 0 => 0
      | n => n + sign + 1
    else 0
  | [] => 0

/-- The length of a numeric literal at the front, without a suffix `n`. -/
def numberLength (s : List Char) : Nat :=
  match s with
  | '0' :: c :: rest =>
    if "xXoObB".toList.contains c then digitsLength isHexDigit rest + 2 else decimal s
  | _ => decimal s
where
  /-- The length of a decimal literal. -/
  decimal (s : List Char) : Nat :=
    let whole := digitsLength Char.isDigit s
    let fraction := match s.drop whole with
      | '.' :: rest => digitsLength Char.isDigit rest + 1
      | _ => 0
    whole + fraction + exponentLength (s.drop (whole + fraction))

/-- Reads a name: its characters, its length, and whether it has an escape. The first `skip`
characters belong to an escape that was already read. -/
def nameBody (skip : Nat) : List Char → List Char × Nat × Bool
  | [] => ([], 0, false)
  | c :: rest =>
    match skip with
    | n + 1 => let (name, k, e) := nameBody n rest; (name, k + 1, e)
    | 0 =>
      if continuesName c then let (name, k, e) := nameBody 0 rest; (c :: name, k + 1, e)
      else match c, rest with
        | '\\', 'u' :: digits =>
          match unicodeEscape digits with
          | (some code, n) =>
            if continuesName (Char.ofNat code) then
              let (name, k, _) := nameBody (n + 1) rest
              (Char.ofNat code :: name, k + 1, true)
            else ([], 0, false)
          | (none, _) => ([], 0, false)
        | _, _ => ([], 0, false)

/-! ## Marks -/

/-- The marks of more than one character, longer ones first. A `>` is read alone: readers join it
to what follows where the grammar asks for an operator. -/
def longMarks : List String :=
  ["...", "===", "!==", "**=", "<<=", "&&=", "||=", "??=", "=>", "==", "!=", "<=", "++", "--",
    "**", "<<", "&&", "||", "??", "?.", "+=", "-=", "*=", "/=", "%=", "&=", "|=", "^="]

/-- The characters that are marks alone. -/
def markChars : List Char := "\x7b\x7d()[];,<>+-*/%&|^!~?:=.@#".toList

/-- The mark at the front, if there is one. A `?.` before a digit is two marks. -/
def markOf? (s : List Char) : Option String :=
  let long := longMarks.find? fun m =>
    m.toList.isPrefixOf s && !(m == "?." && ((s[2]?.map Char.isDigit).getD false))
  match long, s with
  | some m, _ => some m
  | none, c :: _ => if markChars.contains c then some (String.ofList [c]) else none
  | none, [] => none

/-! ## Scanning -/

/-- The token at the front of a text that starts with no blank, and its length. -/
def scanToken (s : List Char) : Token × Nat :=
  match s with
  | [] => (.stop, 0)
  | c :: rest =>
    if startsName c || c == '\\' then
      match nameBody 0 s with
      | ([], _, _) => (.stop, 0)
      | (name, n, escaped) =>
        (if escaped then .escapedWord (String.ofList name) else .word (String.ofList name), n)
    else if c == '"' || c == '\'' then
      match stringBody? c 0 rest with
      | some (value, n) => (.string (String.ofList value), n + 1)
      | none => (.stop, 0)
    else if c == '`' then
      match templateBody? rest with
      | some (n, true) => (.template, n + 1)
      | some (n, false) => (.templateOpen, n + 1)
      | none => (.stop, 0)
    else if c.isDigit || (c == '.' && (rest.head?.map Char.isDigit).getD false) then
      let n := numberLength s
      let literal := String.ofList (s.take n)
      if s[n]? == some 'n' then (.bigint literal, n + 1) else (.number literal, n)
    else if c == '#' && (rest.head?.map startsName).getD false then
      let (name, n, _) := nameBody 0 rest
      (.privateName (String.ofList name), n + 1)
    else match markOf? s with
      | some m => (.mark m, m.length)
      | none => (.stop, 0)

/-- The next token behind a cursor. -/
def nextLexeme (c : Cursor) : Lexeme :=
  let (start, seen) := skipGaps (c.rest.length + 1) c false
  let (token, n) := scanToken start.rest
  ⟨token, start, start.skip n, seen⟩

end IpcWiring.Script
