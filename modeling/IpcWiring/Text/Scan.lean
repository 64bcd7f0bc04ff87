/-!
# Scanning characters

A scanner takes characters from the front of a text and gives a result with the characters that are
left, or fails. Repetition ends where nothing is taken, so every scanner is total.
-/

namespace IpcWiring.Text

/-- A scanner of `α`. -/
abbrev Scan := StateT (List Char) Option

namespace Scan

variable {α : Type}

/-- The characters that are left. -/
def ahead : Scan (List Char) := get

/-- The next character, if there is one. -/
def peek? : Scan (Option Char) := return (← get).head?

/-- Takes a character that satisfies `p`. -/
def one (p : Char → Bool) : Scan Char := do
  match ← get with
  | [] => failure
  | c :: rest => if p c then set rest; return c else failure

/-- Takes the characters that satisfy `p`, as many as there are. -/
def run (p : Char → Bool) : Scan (List Char) := do
  let s ← get
  set (s.dropWhile p)
  return s.takeWhile p

/-- Takes the given characters. -/
def exactly (expected : List Char) : Scan Unit := do
  let s ← get
  if expected.isPrefixOf s then set (s.drop expected.length) else failure

/-- The given characters are next. -/
def sees (expected : List Char) : Scan Bool := return expected.isPrefixOf (← get)

/-- Runs `p` again and again until it fails or takes nothing. -/
def manyFrom (p : Scan α) (s : List Char) : List α × List Char :=
  match p s with
  | none => ([], s)
  | some (a, rest) =>
    if rest.length < s.length then
      let (as, last) := manyFrom p rest
      (a :: as, last)
    else ([], s)
termination_by s.length

/-- The results of running `p` as often as it takes something. -/
def many (p : Scan α) : Scan (List α) := fun s => some (manyFrom p s)

/-- Runs `p` on the whole of a text. -/
def all? (p : Scan α) (s : String) : Option α :=
  match p s.toList with
  | some (a, []) => some a
  | _ => none

end Scan

end IpcWiring.Text
