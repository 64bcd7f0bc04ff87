import IpcWiring.Text.Basic

/-!
# Filter patterns

A filter pattern selects paths by their text. `?` stands for any character and `*` for any text,
separators included; `**` as a whole component stands for any directories; brackets stand for one
character of a set. The text of a pattern can be ill-formed, and `parse?` refuses it then.
-/

namespace IpcWiring

/-- A range of characters, a single one if both ends are the same. -/
structure CharSpan where
  first : Char
  last : Char
deriving DecidableEq, Repr

/-- A character of a pattern, or what stands for some. -/
inductive FilterToken where
  | char (c : Char)
  /-- Any character. -/
  | any
  /-- Any text. -/
  | star
  /-- Nothing, any number of directories, or all that is left. -/
  | directories
  /-- A character that is in one of the ranges, or in none of them if negated. -/
  | set (negated : Bool) (spans : List CharSpan)
deriving DecidableEq, Repr

/-- A pattern for the text of a path. -/
structure FilterPattern where
  text : String
  tokens : List FilterToken
deriving DecidableEq, Repr

namespace FilterPattern

/-! ## Reading -/

/-- The ranges between brackets; a dash between two characters makes a range. -/
def spansOf : List Char → List CharSpan
  | a :: '-' :: b :: rest => ⟨a, b⟩ :: spansOf rest
  | a :: rest => ⟨a, a⟩ :: spansOf rest
  | [] => []

/-- What stands between brackets, up to the first closing one behind the first character. -/
def setBody? : List Char → Option (List Char × List Char)
  | [] => none
  | first :: rest =>
    let more := rest.takeWhile (· != ']')
    match rest.drop more.length with
    | [] => none
    | _ :: after => some (first :: more, after)

/-- A set, where the text behind its opening bracket is given. -/
def set? : List Char → Option (FilterToken × List Char)
  | '!' :: rest => (setBody? rest).map fun (body, after) => (.set true (spansOf body), after)
  | rest => (setBody? rest).map fun (body, after) => (.set false (spansOf body), after)

/-- What follows the body of a set is shorter than the text. -/
theorem length_setBody?_lt {s body after : List Char} (h : setBody? s = some (body, after)) :
    after.length < s.length := by
  cases s with
  | nil => simp [setBody?] at h
  | cons first rest =>
    simp only [setBody?] at h
    split at h
    · cases h
    · next c after' heq =>
      cases h
      have hl := congrArg List.length heq
      simp only [List.length_drop, List.length_cons] at hl
      simp only [List.length_cons]
      omega

/-- What follows a set is shorter than the text. -/
theorem length_set?_lt {s after : List Char} {t : FilterToken} (h : set? s = some (t, after)) :
    after.length < s.length := by
  unfold set? at h
  split at h
  · obtain ⟨⟨body, rest'⟩, hb, he⟩ := Option.map_eq_some_iff.1 h
    cases he
    have := length_setBody?_lt hb
    simp only [List.length_cons]
    omega
  · obtain ⟨⟨body, rest'⟩, hb, he⟩ := Option.map_eq_some_iff.1 h
    cases he
    exact length_setBody?_lt hb

/-- The tokens of a text. `atStart` tells that a component starts here. Two stars have to be a
component of their own, and there are never three in a row. -/
def tokens? (atStart : Bool) (s : List Char) : Option (List FilterToken) :=
  match s with
  | [] => some []
  | '*' :: '*' :: '*' :: _ => none
  | ['*', '*'] => if atStart then some [.directories] else none
  | '*' :: '*' :: '/' :: rest =>
    if atStart then (tokens? true rest).map (.directories :: ·) else none
  | '*' :: '*' :: _ => none
  | '*' :: rest => (tokens? false rest).map (.star :: ·)
  | '?' :: rest => (tokens? false rest).map (.any :: ·)
  | '[' :: rest =>
    match h : set? rest with
    | none => none
    | some (token, after) =>
      have := length_set?_lt h
      (tokens? false after).map (token :: ·)
  | c :: rest => (tokens? (c == '/') rest).map (.char c :: ·)
termination_by s.length

/-- The pattern that a text is, unless it is ill-formed. -/
def parse? (text : String) : Option FilterPattern :=
  (tokens? true text.toList).map fun tokens => ⟨text, tokens⟩

/-! ## Matching -/

/-- The text and what is left of it behind each character. -/
def tails : List Char → List (List Char)
  | [] => [[]]
  | c :: rest => (c :: rest) :: tails rest

/-- What is left behind each separator, and behind the whole text. -/
def behindSeparators : List Char → List (List Char)
  | [] => [[]]
  | c :: rest => if c = '/' then rest :: behindSeparators rest else behindSeparators rest

/-- The character is in one of the ranges. -/
def isInSpans (spans : List CharSpan) (c : Char) : Bool :=
  spans.any fun r => r.first ≤ c && c ≤ r.last

/-- The tokens match the whole of a text. -/
def matchesTokens : List FilterToken → List Char → Bool
  | [], s => s.isEmpty
  | .star :: ts, s => (tails s).any (matchesTokens ts)
  | .directories :: ts, s => (s :: behindSeparators s).any (matchesTokens ts)
  | _ :: _, [] => false
  | .char a :: ts, c :: s => a == c && matchesTokens ts s
  | .any :: ts, _ :: s => matchesTokens ts s
  | .set negated spans :: ts, c :: s => isInSpans spans c != negated && matchesTokens ts s

/-- The pattern matches a text. -/
def isMatch (p : FilterPattern) (text : String) : Bool := matchesTokens p.tokens text.toList

end FilterPattern

end IpcWiring
