import IpcWiring.Text.Basic

/-!
# The text of a type on one line

`normalize` drops comments and squeezes blanks outside quotes, so that a type can stand on one line
of another file. `splice` cuts a span out of a source with some parts of it written anew.
-/

namespace IpcWiring.Script

open IpcWiring.Text (isBlank trimChars trimStartChars)

/-! ## Normal text -/

/-- Where the scan of a type text stands. -/
inductive TextMode where
  /-- Outside quotes and comments; `gap` tells of blanks or comments since the last character. -/
  | plain (gap : Bool)
  /-- Inside the quotes `mark`; an escaped character never closes them. -/
  | quoted (mark : Char) (escaped : Bool)
  | lineComment
  /-- Inside a block comment, after the character `before`. -/
  | blockComment (before : Char)
deriving DecidableEq, Repr

/-- A quote mark of any kind. -/
def isQuote (c : Char) : Bool := c == '\'' || c == '"' || c == '`'

/-- The space between what was written and the next character, if one is due. -/
def gapText (gap written : Bool) : List Char := if gap && written then [' '] else []

/-- Drops comments and squeezes blanks; `written` tells whether anything was written before. -/
def squeeze (mode : TextMode) (written : Bool) : List Char → List Char
  | [] => []
  | c :: rest =>
    match mode with
    | .plain gap =>
      if isQuote c then
        gapText gap written ++ c :: squeeze (.quoted c false) true rest
      else if c == '/' && rest.head? == some '/' then squeeze .lineComment written rest
      else if c == '/' && rest.head? == some '*' then
        match rest with
        | [] => []
        | _ :: inner => squeeze (.blockComment ' ') written inner
      else if isBlank c then squeeze (.plain true) written rest
      else gapText gap written ++ c :: squeeze (.plain false) true rest
    | .quoted mark escaped =>
      if escaped then c :: squeeze (.quoted mark false) written rest
      else if c == '\\' then c :: squeeze (.quoted mark true) written rest
      else if c == mark then c :: squeeze (.plain false) written rest
      else c :: squeeze (.quoted mark false) written rest
    | .lineComment =>
      if c == '\n' then squeeze (.plain true) written rest
      else squeeze .lineComment written rest
    | .blockComment before =>
      if before == '*' && c == '/' then squeeze (.plain true) written rest
      else squeeze (.blockComment c) written rest

/-- Drops one `|` or `&` at the start with the blanks behind it. -/
def dropLeadingOperator : List Char → List Char
  | [] => []
  | c :: rest => if c == '|' || c == '&' then trimStartChars rest else c :: rest

/-- A type text without comments, with single spaces and no leading `|` or `&`. -/
def normalizeChars (s : List Char) : List Char :=
  dropLeadingOperator (trimChars (squeeze (.plain false) false s))

/-- A type text without comments, with single spaces and no leading `|` or `&`. -/
def normalize (s : String) : String := String.ofList (normalizeChars s.toList)

/-! ## Splicing -/

/-- A span of a source, in byte offsets, with the text that stands for it. -/
structure Piece where
  start : Nat
  stop : Nat
  text : String
deriving Repr

/-- The characters from `pos` up to `stop`, each piece replaced by its text. The pieces lie within
the span, in order and apart from each other. -/
def splice (stop : Nat) : Nat → List Piece → List Char → List Char
  | _, _, [] => []
  | pos, pieces, c :: rest =>
    if pos ≥ stop then []
    else
      let next := pos + c.utf8Size
      match pieces with
      | [] => c :: splice stop next [] rest
      | p :: later =>
        let left := if next ≥ p.stop then later else p :: later
        if pos < p.start then c :: splice stop next (p :: later) rest
        else if pos = p.start then p.text.toList ++ splice stop next left rest
        else splice stop next left rest

end IpcWiring.Script
