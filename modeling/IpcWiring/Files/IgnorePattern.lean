import IpcWiring.Text.Scan

/-!
# Ignore patterns

The pattern of an ignore rule matches the bytes of a path from end to end. `?` and `*` stay within a
component, `**` as a whole component stands for any directories, brackets stand for one byte of a
set, braces for one of several patterns, and a backslash takes away the meaning of what follows it.
-/

namespace IpcWiring

open Text

/-- A range of bytes. -/
structure ByteSpan where
  first : UInt8
  last : UInt8
deriving DecidableEq, Repr

/-- A byte of a pattern, or what stands for some. -/
inductive IgnoreToken where
  | byte (b : UInt8)
  /-- A byte of a component. -/
  | any
  /-- Bytes of a component. -/
  | star
  /-- Nothing, or all bytes up to a separator. -/
  | directories
  /-- Any bytes. -/
  | anything
  /-- A byte that is in one of the ranges, or in none of them if negated. -/
  | set (negated : Bool) (spans : List ByteSpan)
  /-- One of several patterns. -/
  | choice (options : List (List IgnoreToken))
deriving Repr

namespace IgnorePattern

/-! ## Pieces -/

/-- A piece of the text of a pattern. -/
inductive Piece where
  | char (c : Char)
  /-- A character behind a backslash. -/
  | escaped (c : Char)
  | any
  | star
  | opening
  | comma
  | closing
  | set (negated : Bool) (spans : List (Char × Char))
deriving DecidableEq, Repr

/-- The ranges between brackets while they are read, the last one first. -/
structure SetProgress where
  spans : List (Char × Char)
  /-- A dash was read that can make a range with what follows. -/
  inRange : Bool

namespace SetProgress

/-- Takes a character in. A range whose ends are in the wrong order makes the pattern invalid. -/
def add (p : SetProgress) (c : Char) : Option SetProgress :=
  match p.spans with
  | [] => some ⟨[(c, c)], false⟩
  | (first, last) :: before =>
    if p.inRange then if c < first then none else some ⟨(first, c) :: before, false⟩
    else if c == '-' then some { p with inRange := true }
    else some ⟨(c, c) :: (first, last) :: before, false⟩

/-- The ranges that were read; a dash at the end stands for itself. -/
def finish (p : SetProgress) : List (Char × Char) :=
  (if p.inRange then ('-', '-') :: p.spans else p.spans).reverse

end SetProgress

/-- A set, or just an opening bracket if no bracket closes it. A closing bracket right at the start
is a member. -/
def setPiece : Scan Piece := do
  Scan.exactly ['[']
  let afterBracket ← Scan.ahead
  let mark? ← Scan.peek?
  let negated := mark? == some '!' || mark? == some '^'
  if negated then discard (Scan.one fun _ => true)
  let first ← Scan.run (· == ']')
  let first := first.take 1
  set ((if negated then afterBracket.drop 1 else afterBracket).drop first.length)
  let body := first ++ (← Scan.run (· != ']'))
  match body.foldlM SetProgress.add ⟨[], false⟩ with
  | none => failure
  | some p =>
    if !body.isEmpty && (← Scan.sees [']']) then
      Scan.exactly [']']
      return .set negated p.finish
    else
      set afterBracket
      return .char '['

/-- One piece of a pattern. -/
def piece : Scan Piece := do
  match ← Scan.peek? with
  | some '[' => setPiece
  | _ =>
    match ← Scan.one fun _ => true with
    | '?' => return .any
    | '*' => return .star
    | '{' => return .opening
    | ',' => return .comma
    | '}' => return .closing
    | '\\' => return .escaped (← Scan.one fun _ => true)
    | c => return .char c

/-! ## Tokens -/

/-- The separator of components. -/
def separator : UInt8 := 47

/-- The tokens of a character. -/
def charTokens (c : Char) : List IgnoreToken :=
  (String.singleton c).toUTF8.toList.map IgnoreToken.byte

/-- The ranges of bytes for a range of characters; only the neighbouring bytes of its two ends make
a range. -/
def byteSpans (r : Char × Char) : List ByteSpan :=
  let low := (String.singleton r.1).toUTF8.toList
  let high := (String.singleton r.2).toUTF8.toList
  let alone := fun (b : UInt8) => (⟨b, b⟩ : ByteSpan)
  if r.1 == r.2 then low.map alone
  else match low.getLast?, high with
    | some l, h :: more => low.dropLast.map alone ++ ⟨l, h⟩ :: more.map alone
    | _, _ => []

/-- A group in braces that is not closed yet. -/
structure OpenGroup where
  /-- What stands in front of the group, the last token first. -/
  front : List IgnoreToken
  /-- The options that are complete, the last one first. -/
  options : List (List IgnoreToken)

/-- The token for a closed group; empty options do not count. -/
def groupTokens (options : List (List IgnoreToken)) : List IgnoreToken :=
  match options.filter (!·.isEmpty) with
  | [] => []
  | options => [.choice options]

/-- What two stars behind a separator add; `atEnd` tells that the pattern or option ends here. The
tokens are those in front, the last one first. -/
def addDirectories (atEnd : Bool) : List IgnoreToken → List IgnoreToken
  | [.directories] => [.directories]
  | .directories :: front => if atEnd then .anything :: front else .directories :: front
  | .anything :: front => .anything :: front
  | front => (if atEnd then .anything else .directories) :: front

/-- The tokens of pieces. `afterSeparator` tells that a separator stands in front, `front` are the
tokens of the pattern or option so far, the last one first, and `groups` are the groups that are
open, the innermost one first. -/
def tokensFrom (afterSeparator : Bool) (front : List IgnoreToken) (groups : List OpenGroup) :
    List Piece → Option (List IgnoreToken)
  | [] => if groups.isEmpty then some front.reverse else none
  | [.star, .star] =>
    if !groups.isEmpty then none
    else if front.isEmpty || afterSeparator then
      some (if front.isEmpty then [.directories] else (addDirectories true front).reverse)
    else some (.star :: .star :: front).reverse
  | .star :: .star :: .char '/' :: rest =>
    if front.isEmpty then tokensFrom true [.directories] groups rest
    else if afterSeparator then tokensFrom true (addDirectories false front) groups rest
    else tokensFrom true (.byte separator :: .star :: .star :: front) groups rest
  | .star :: .star :: .comma :: rest =>
    match groups with
    | [] => tokensFrom false ((charTokens ',').reverse ++ .star :: .star :: front) [] rest
    | g :: outer =>
      let last := if front.isEmpty || !afterSeparator then .star :: .star :: front
        else addDirectories true front
      tokensFrom false [] ({ g with options := last.reverse :: g.options } :: outer) rest
  | .star :: .star :: .closing :: rest =>
    match groups with
    | [] => none
    | g :: outer =>
      let last := if front.isEmpty || !afterSeparator then .star :: .star :: front
        else addDirectories true front
      let options := (last.reverse :: g.options).reverse
      tokensFrom false ((groupTokens options).reverse ++ g.front) outer rest
  | .star :: .star :: rest => tokensFrom false (.star :: .star :: front) groups rest
  | .star :: rest => tokensFrom false (.star :: front) groups rest
  | .any :: rest => tokensFrom false (.any :: front) groups rest
  | .char c :: rest => tokensFrom (c == '/') ((charTokens c).reverse ++ front) groups rest
  | .escaped c :: rest => tokensFrom (c == '/') ((charTokens c).reverse ++ front) groups rest
  | .set negated spans :: rest =>
    tokensFrom false (.set negated (spans.flatMap byteSpans) :: front) groups rest
  | .opening :: rest => tokensFrom false [] (⟨front, []⟩ :: groups) rest
  | .comma :: rest =>
    match groups with
    | [] => tokensFrom false ((charTokens ',').reverse ++ front) [] rest
    | g :: outer =>
      tokensFrom false [] ({ g with options := front.reverse :: g.options } :: outer) rest
  | .closing :: rest =>
    match groups with
    | [] => none
    | g :: outer =>
      let options := (front.reverse :: g.options).reverse
      tokensFrom false ((groupTokens options).reverse ++ g.front) outer rest

/-- The tokens of a pattern, unless it is ill-formed. Two stars alone stand for anything. -/
def parse? (s : List Char) : Option (List IgnoreToken) := do
  let (pieces, rest) ← Scan.many piece s
  if !rest.isEmpty then none
  match ← tokensFrom false [] [] pieces with
  | [.directories] => return [.anything]
  | tokens => return tokens

/-! ## Matching -/

/-- The bytes and what is left of them behind each one. -/
def tails : List UInt8 → List (List UInt8)
  | [] => [[]]
  | b :: rest => (b :: rest) :: tails rest

/-- What is left behind each byte of the first component. -/
def componentTails : List UInt8 → List (List UInt8)
  | [] => [[]]
  | b :: rest => (b :: rest) :: if b = separator then [] else componentTails rest

/-- What is left behind each separator. -/
def behindSeparators : List UInt8 → List (List UInt8)
  | [] => []
  | b :: rest => if b = separator then rest :: behindSeparators rest else behindSeparators rest

/-- The byte is in one of the ranges. -/
def isInSpans (spans : List ByteSpan) (b : UInt8) : Bool :=
  spans.any fun r => r.first ≤ b && b ≤ r.last

mutual

/-- A token takes bytes from the front, and the rest satisfies `next`. -/
def tokenMatches (next : List UInt8 → Bool) : IgnoreToken → List UInt8 → Bool
  | .byte a, b :: s => a == b && next s
  | .any, b :: s => b != separator && next s
  | .set negated spans, b :: s => isInSpans spans b != negated && next s
  | .star, s => (componentTails s).any next
  | .directories, s => (s :: behindSeparators s).any next
  | .anything, s => (tails s).any next
  | .choice options, s => choiceMatches next options s
  | _, [] => false

/-- Tokens take bytes from the front one after another, and the rest satisfies `next`. -/
def sequenceMatches (next : List UInt8 → Bool) : List IgnoreToken → List UInt8 → Bool
  | [], s => next s
  | t :: ts, s => tokenMatches (fun s => sequenceMatches next ts s) t s

/-- One of several patterns takes bytes from the front, and the rest satisfies `next`. -/
def choiceMatches (next : List UInt8 → Bool) : List (List IgnoreToken) → List UInt8 → Bool
  | [], _ => false
  | o :: os, s => sequenceMatches next o s || choiceMatches next os s

end

/-- The tokens match all bytes of a path. -/
def isMatch (tokens : List IgnoreToken) (path : List UInt8) : Bool :=
  sequenceMatches List.isEmpty tokens path

end IgnorePattern

end IpcWiring
