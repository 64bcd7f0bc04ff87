import IpcWiring.Text.Key

/-!
# Substitution in type texts

`substitute` replaces type parameters in a text by the texts they are bound to, in one pass from
left to right. What stands in quotes, behind a dot or as a property key is left alone, and a bound
text whose top level is an operator is put in parentheses.
-/

namespace IpcWiring.TypeText

open IpcWiring.Text (isBlank startsIdentifier continuesIdentifier)

/-! ## Grouping -/

/-- Where a scan of a text stands: how many brackets are open, whether an operator was met outside
of them, and the character before. -/
structure Nesting where
  depth : Int
  compound : Bool
  before : Char

namespace Nesting

/-- Goes past a character. A `>` behind a `=` is an arrow and closes nothing. -/
def step (s : Nesting) (c : Char) : Nesting :=
  let depth :=
    if "<([\x7b".toList.contains c then s.depth + 1
    else if c == '>' && s.before == '=' then s.depth
    else if ">)]\x7d".toList.contains c then s.depth - 1
    else s.depth
  let operator := (c == '>' && s.before == '=') || c == '|' || c == '&'
  ⟨depth, s.compound || (operator && s.depth == 0), c⟩

/-- The start of a text. -/
def start : Nesting := ⟨0, false, ' '⟩

end Nesting

/-- An operator stands outside all brackets. -/
def isCompound (text : List Char) : Bool := (text.foldl Nesting.step .start).compound

/-- Puts a text with an operator outside all brackets in parentheses. -/
def grouped (text : List Char) : List Char :=
  if isCompound text then '(' :: text ++ [')'] else text

/-! ## One pass -/

/-- What stands in quotes behind the opening mark, with the closing one, and what is left. -/
def quotedSpan (mark : Char) : List Char → List Char × List Char
  | [] => ([], [])
  | '\\' :: c :: rest =>
    let (span, left) := quotedSpan mark rest
    ('\\' :: c :: span, left)
  | c :: rest =>
    if c == mark then ([c], rest)
    else
      let (span, left) := quotedSpan mark rest
      (c :: span, left)

/-- What follows a quoted span is no longer than the text with the span. -/
theorem length_quotedSpan (mark : Char) (s : List Char) :
    (quotedSpan mark s).2.length ≤ s.length := by
  fun_induction quotedSpan mark s <;> simp_all <;> omega

/-- The name can be a parameter: it is no member behind a dot, and no key. -/
def isParameterPlace (before after : Option Char) : Bool :=
  let key := (before.map "\x7b;,(".toList.contains).getD false &&
    (after == some ':' || after == some '?')
  before != some '.' && !key

/-- Replaces bound names from here on; `before` is the last character that is not blank. -/
def substituteChars (bound : String → Option String) (before : Option Char) :
    List Char → List Char
  | [] => []
  | c :: rest =>
    if c == '\'' || c == '"' || c == '`' then
      let span := (quotedSpan c rest).1
      c :: span ++ substituteChars bound ((c :: span).reverse.find? (!isBlank ·))
        (quotedSpan c rest).2
    else if startsIdentifier c then
      let word := c :: rest.takeWhile continuesIdentifier
      let left := rest.dropWhile continuesIdentifier
      let text := match bound (String.ofList word) with
        | some value =>
          if isParameterPlace before (left.find? (!isBlank ·)) then grouped value.toList else word
        | none => word
      text ++ substituteChars bound word.getLast? left
    else
      c :: substituteChars bound (if isBlank c then before else some c) rest
termination_by s => s.length
decreasing_by
  · exact Nat.lt_succ_of_le (length_quotedSpan c rest)
  · exact Nat.lt_succ_of_le (List.dropWhile_suffix _).length_le
  · simp

/-- Replaces the names that are bound in a type text. -/
def substitute (bound : String → Option String) (text : String) : String :=
  String.ofList (substituteChars bound none text.toList)

end IpcWiring.TypeText
